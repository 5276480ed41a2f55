import Tellstone.Frontend.Gate
import Tellstone.Server

/-! The listener of the binary protocol: the gate in front of the handler, and AUTH frames. -/
namespace Tellstone.Network
open ByteStream EventLoop Frontend

def write (type : MessageType) (payload : Bytes) : Bytes :=
  (putUint 4 (1 + payload.length)).reverse ++ type.byte :: payload

def Answer.bytes (a : Answer) : Bytes := (a.payload.map (write a.type)).getD []

def parseAuthPayload (value : Bytes) : Option (Bytes × Bytes) :=
  if value.length < 2 then none
  else
    let usernameLen := uintBE (value.take 2)
    if value.length < 2 + usernameLen + 2 then none
    else
      let rest := value.drop (2 + usernameLen)
      let passwordLen := uintBE (rest.take 2)
      if value.length < 2 + usernameLen + 2 + passwordLen then none
      else some ((value.drop 2).take usernameLen, (rest.drop 2).take passwordLen)

def Message.kind (msg : Message) : Kind :=
  if msg.hasType .ping then .other
  else
    match msg.opCode with
    | some .get | some .set | some .delete => .data
    | some _ => .policy
    | none => .other

/-- `tls` says that there is a TLS configuration; `admin` handles the ROLE and ACL frames over a
random salt. -/
structure Server (σ : Type) where
  store : Nat → Command.Store σ
  access : Access
  tls : Bool
  maxMsgSize : Nat
  compare : Bytes → Bytes → Bool
  admin : Bytes → Admin

def invalidAuth : Bytes := write .authErr responseAuthErr

namespace Server

variable {σ : Type}

def authUser (username : Bytes) : Bytes := if username = [] then ascii "default" else username

/-- An AUTH frame. A user without password goes to the workers like any other. -/
def handleAuthMessage (srv : Server σ) (m : Moment σ) (st : ConnState) (core : Core σ)
    (value : Bytes) : Dispatched σ :=
  match srv.access, parseAuthPayload value with
  | .unrestricted, _ => ⟨core, st, write .authOk responseOK, .auth, none⟩
  | _, none => .rejected srv.access m st core [] (ascii "malformed request") invalidAuth
  | .policy oauth, some (username, password) =>
    if oauth ∧ username.length = 0 ∧ isJWT password then
      .submit m st core ⟨password, [], [], ascii "invalid token", none, true⟩ invalidAuth
    else
      match core.policy.active with
      | none => .rejected srv.access m st core username (ascii "policy not loaded") invalidAuth
      | some p =>
        let name := authUser username
        match p.userFor name with
        | none => .rejected srv.access m st core name (ascii "unknown user") invalidAuth
        | some u =>
          .submit m st core ⟨password, u.passwordHash, name, ascii "invalid password",
            some (.new name (p.roleFor name)), false⟩ invalidAuth
  | .password hash, some (username, password) =>
    if authUser username ≠ ascii "default" then
      .rejected srv.access m st core username (ascii "unknown user") invalidAuth
    else .submit m st core ⟨password, hash, [], [], none, false⟩ invalidAuth

def opAuthorized (msg : Message) (st : ConnState) : Bool :=
  msg.hasType .ping || msg.hasType .auth || st.session.any fun s =>
    match msg.opCode with
    | some .roleCreate | some .roleSetUser | some .roleDelUser | some .roleDelete
    | some .roleList | some .roleGetUser => s.allowsCommand .role
    | some .aclSetUser | some .aclDelUser | some .aclList | some .aclLog => s.allowsCommand .acl
    | some .get => s.isAllowed .get msg.key
    | some .set => s.isAllowed .set msg.key
    | some .delete => s.isAllowed .del msg.key
    | none => false

def runHandler (srv : Server σ) (m : Moment σ) (st : ConnState) (core : Core σ) (msg : Message) :
    Dispatched σ :=
  let policy := (srv.access.policy? core).map fun policy =>
    if msg.hasType .ping then policy else (st.session.map policy.countCommand).getD policy
  let handled := networkHandler (srv.store m.now) m.now (srv.admin m.salt) msg st.remoteAddr policy
    core.store
  ⟨⟨handled.store, handled.policy.getD core.policy⟩, st, handled.answer.bytes, msg.kind, none⟩

def dispatch (srv : Server σ) (m : Moment σ) (st : ConnState) (core : Core σ) (msg : Message) :
    Dispatched σ :=
  if msg.hasType .auth then srv.handleAuthMessage m st core msg.value
  else if st.authenticated = false ∧ msg.hasType .ping = false then
    ⟨core, st, invalidAuth, .other, none⟩
  else
    match srv.access.policy? core with
    | none => srv.runHandler m st core msg
    | some policy =>
      if opAuthorized msg st then srv.runHandler m st core msg
      else
        let user := (st.session.map fun s => s.username).getD []
        let policy := policy.incDenied.logDenied m.now user st.remoteAddr (OpCode.name msg.opCode)
          msg.key
        ⟨{ core with policy := policy }, st, write .error responseNotAuthorized, .policy, none⟩

/-- Serves the frames of the buffer, at most so many, and returns what is left of it. -/
def frames (srv : Server σ) (io : Io σ) : Nat → Pass σ Message → Bytes →
    Pass σ Message × Bytes × Action
  | 0, p, buf => (p, buf, .none)
  | fuel + 1, p, buf =>
    match decode buf srv.maxMsgSize with
    | .error .shortRead => (p, buf, .none)
    | .error .outOfRange => (p, buf, .halt)
    | .error _ => (p, buf, .close)
    | .ok (payloadLen, msg) =>
      let m := io.moment p.count
      let core := m.others p.core
      let d := srv.dispatch m p.state core msg
      let p := p.take core msg d
      let rest := buf.drop (5 + payloadLen)
      if d.job.isSome then (p, rest, .none)
      else if d.out ≠ [] ∧ m.writeFails then (p, rest, .close)
      else
        let p := { p with state := p.state.send d.out }
        if d.state.closeAfterReply then (p, rest, .close) else srv.frames io fuel p rest

def serveFrames (srv : Server σ) (io : Io σ) (p : Pass σ Message) (buf : Bytes) :
    Pass σ Message × Action :=
  if p.state.authPending then (p, .none)
  else
    let (p, rest, action) := srv.frames io buf.length p buf
    if action ≠ .none then (p, action)
    else ({ p with state := p.state.discard (buf.length - rest.length) }, .none)

def onTrafficPlaintext (srv : Server σ) (io : Io σ) (p : Pass σ Message) : Pass σ Message × Action :=
  srv.serveFrames io p p.state.inbound

def handleDecryptedFrames (srv : Server σ) (io : Io σ) (p : Pass σ Message) (t : Tls) :
    Pass σ Message × Action :=
  srv.serveFrames io p t.readBuf

/-- The buffer does not grow: once it is full, nothing is read and the loop goes on. -/
def onTrafficTLS (srv : Server σ) (io : Io σ) : Nat → Pass σ Message → Pass σ Message × Action
  | 0, p => (p, .halt)
  | fuel + 1, p =>
    match p.state.tls with
    | none => (p, .none)
    | some t => p.turn t (srv.handleDecryptedFrames io) (srv.onTrafficTLS io fuel)

def onTraffic (srv : Server σ) (io : Io σ) (core : Core σ) (st : ConnState) :
    Served (Core σ) ConnState (Entry σ Message) AuthJob :=
  let (p, action) :=
    match st.tls with
    | none => srv.onTrafficPlaintext io (.start core st)
    | some t => srv.onTrafficTLS io (t.available + 1) (.start core st)
  p.ends action

def onOpen (srv : Server σ) (io : Io σ) (_ : Core σ) : ConnState :=
  .opened io.remoteAddr srv.tls (decide (srv.access = .unrestricted)) none

def frontEnd (srv : Server σ) : FrontEnd σ Message where
  access := srv.access
  compare := srv.compare
  reply success := if success then write .authOk responseOK else invalidAuth
  onOpen := srv.onOpen
  onTraffic := srv.onTraffic

end Server

end Tellstone.Network
