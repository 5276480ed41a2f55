import Tellstone.Frontend.Gate
import Tellstone.Resp.Protocol

/-! The RESP listener: the dispatch of commands, AUTH, and the plaintext and TLS paths of
its traffic handler. -/
namespace Tellstone.Resp
open ByteStream EventLoop Frontend

/-- The command families that take a permission and no key. -/
inductive Family where
  | command
  | role
  | acl
  deriving DecidableEq, Repr

namespace Family

def rbacID : Family → Rbac.Cmd
  | command => .command
  | role => .role
  | acl => .acl

def lowerName : Family → Bytes
  | command => ascii "command"
  | role => ascii "role"
  | acl => ascii "acl"

def all : List Family := [command, role, acl]

def find (cmd : Bytes) : Option Family := all.find? fun f => equalFold cmd f.rbacID.name

end Family

/-- The handlers of the families, over a random salt; the policy is there with RBAC only. -/
abbrev Admin := Bytes → Family → List Bytes → Option Rbac.Store → Option Rbac.Store × Bytes

/-- `tls` says that there is a TLS configuration, and `text` is what store errors read. -/
structure Server (σ : Type) where
  store : Nat → Command.Store σ
  access : Access
  tls : Bool
  startTLS : Bool
  compare : Bytes → Bytes → Bool
  text : Error → Bytes
  admin : Admin

def invalidPassword : Bytes := appendError [] (ascii "ERR invalid password")

namespace Server

variable {σ : Type}

def authUser (args : List Bytes) : Bytes :=
  if args.length = 3 then args.getD 1 [] else ascii "default"

def authRBAC (srv : Server σ) (m : Moment σ) (st : ConnState) (core : Core σ) (args : List Bytes) :
    Dispatched σ :=
  let username := authUser args
  match core.policy.active with
  | none =>
    .rejected srv.access m st core username (ascii "policy not loaded") invalidPassword
  | some p =>
    match p.userFor username with
    | none => .rejected srv.access m st core username (ascii "unknown user") invalidPassword
    | some u =>
      let session := Rbac.SessionContext.new username (p.roleFor username)
      if u.passwordHash.length = 0 then
        ⟨core, { st with authenticated := true, session := some session }, respOK, .auth, none⟩
      else
        .submit m st core ⟨args.getLastD [], u.passwordHash, username, ascii "invalid password",
          some session, false⟩ invalidPassword

def auth (srv : Server σ) (m : Moment σ) (st : ConnState) (core : Core σ) (args : List Bytes) :
    Dispatched σ :=
  if args.length ≠ 2 ∧ args.length ≠ 3 then
    ⟨core, st, appendError [] (ascii "ERR wrong number of arguments for 'auth' command"), .auth,
      none⟩
  else
    match srv.access with
    | .policy oauth =>
      if oauth ∧ args.length = 2 ∧ isJWT (args.getD 1 []) then
        .submit m st core ⟨args.getD 1 [], [], [], ascii "invalid token", none, true⟩ invalidPassword
      else srv.authRBAC m st core args
    | .unrestricted => ⟨core, st, respOK, .auth, none⟩
    | .password hash =>
      let username := authUser args
      if username ≠ ascii "default" then
        .rejected srv.access m st core username (ascii "unknown user") invalidPassword
      else
        .submit m st core ⟨args.getLastD [], hash, username, ascii "invalid password", none, false⟩
          invalidPassword

def dispatchSTARTTLS (srv : Server σ) (st : ConnState) (core : Core σ) (args : List Bytes) :
    Dispatched σ :=
  if args.length ≠ 1 then
    ⟨core, st, appendError [] (ascii "ERR wrong number of arguments for 'starttls' command"),
      .other, none⟩
  else if st.tls.isSome then
    ⟨core, st, appendError [] (ascii "ERR connection is already encrypted"), .other, none⟩
  else if srv.tls = false then
    ⟨core, st, appendError [] (ascii "ERR TLS not configured"), .other, none⟩
  else ⟨core, { st with upgradeTLS := true }, respOK, .other, none⟩

def family (srv : Server σ) (m : Moment σ) (st : ConnState) (core : Core σ) (args : List Bytes)
    (f : Family) : Dispatched σ :=
  match srv.access.policy? core with
  | none =>
    let (_, out) := srv.admin m.salt f args none
    ⟨core, st, out, .policy, none⟩
  | some policy =>
    if st.session.any fun s => s.allowsCommand f.rbacID then
      let counted := (st.session.map policy.countCommand).getD policy
      let (policy, out) := srv.admin m.salt f args (some counted)
      ⟨{ core with policy := policy.getD counted }, st, out, .policy, none⟩
    else
      let user := (st.session.map fun s => s.username).getD []
      ⟨{ core with
          policy := policy.incDenied.logDenied m.now user st.remoteAddr f.lowerName [] }, st,
        appendError [] (ascii "NOPERM no permission for '" ++ f.lowerName ++ ascii "' command"),
        .policy, none⟩

def execute (srv : Server σ) (m : Moment σ) (st : ConnState) (core : Core σ) (args : List Bytes) :
    Dispatched σ :=
  let done := Command.execute (srv.store m.now) m.now
    ⟨args.map some, 0, srv.access.policy? core, st.session, st.remoteAddr⟩ core.store
  match done.reply with
  | some reply =>
    ⟨⟨done.store, done.policy.getD core.policy⟩, st, respReply srv.text [] reply, .data, none⟩
  | none =>
    let cmd := args.headD []
    if equalFold cmd (ascii "PING") then
      ⟨core, st, (args[1]?.map (appendBulk [])).getD respPong, .other, none⟩
    else
      match Family.find cmd with
      | some f => srv.family m st core args f
      | none =>
        if equalFold cmd (ascii "QUIT") then
          ⟨core, { st with closeAfterReply := true }, respOK, .other, none⟩
        else if srv.startTLS ∧ equalFold cmd (ascii "STARTTLS") then
          srv.dispatchSTARTTLS st core args
        else
          ⟨core, st, appendError [] (ascii "ERR unknown command '" ++ cmd ++ ascii "'"), .other,
            none⟩

def dispatch (srv : Server σ) (m : Moment σ) (st : ConnState) (core : Core σ) (args : List Bytes) :
    Dispatched σ :=
  match args with
  | [] => ⟨core, st, appendError [] (ascii "ERR empty command"), .other, none⟩
  | cmd :: _ =>
    if equalFold cmd (ascii "AUTH") then srv.auth m st core args
    else if st.authenticated then srv.execute m st core args
    else if srv.startTLS ∧ equalFold cmd (ascii "STARTTLS") then srv.dispatchSTARTTLS st core args
    else if equalFold cmd (ascii "PING") ∨ equalFold cmd (ascii "QUIT") then
      srv.execute m st core args
    else ⟨core, st, appendError [] (ascii "NOAUTH Authentication required"), .other, none⟩

/-- It ran through or waits, the connection was upgraded, or it must close without a flush. -/
inductive Stop where
  | done
  | upgraded
  | bad
  deriving DecidableEq, Repr

/-- A loop over a buffer: what is left of it, and the replies that are not flushed yet. -/
structure Processed (σ : Type) where
  pass : Pass σ (List Bytes)
  rest : Bytes
  out : Bytes
  stop : Stop

def upgradeToTLS (srv : Server σ) (m : Moment σ) (q : Processed σ) : Processed σ :=
  if srv.tls = false ∨ m.writeFails then { q with stop := .bad }
  else
    { q with
      pass := { q.pass with
        state := { q.pass.state.send q.out with
          inbound := q.rest
          tls := some .server
          upgradeTLS := false } }
      stop := .upgraded }

def processCommands (srv : Server σ) (io : Io σ) : Nat → Processed σ → Processed σ
  | 0, q => q
  | fuel + 1, q =>
    match parse q.rest with
    | .error .incomplete => q
    | .error .protocol => { q with stop := .bad }
    | .ok (args, rest) =>
      let m := io.moment q.pass.count
      let core := m.others q.pass.core
      let d := srv.dispatch m q.pass.state core args
      let q := ⟨q.pass.take core args d, rest, q.out ++ d.out, .done⟩
      if d.job.isSome then q
      else if d.state.upgradeTLS then srv.upgradeToTLS (io.moment q.pass.count) q
      else if d.state.closeAfterReply then q
      else srv.processCommands io fuel q

def processBuffer (srv : Server σ) (io : Io σ) (p : Pass σ (List Bytes)) (src : Bytes) :
    Processed σ :=
  srv.processCommands io src.length ⟨p, src, [], .done⟩

def hasPipelinedSTARTTLS (buf : Bytes) : Nat → Bytes → Bool
  | 0, _ => false
  | fuel + 1, rest =>
    match parse rest with
    | .error _ => false
    | .ok (args, next) =>
      if args.length = 1 ∧ equalFold (args.headD []) (ascii "STARTTLS") then
        decide (rest.length ≠ buf.length ∨ next ≠ [])
      else hasPipelinedSTARTTLS buf fuel next

/-- Flushes the replies of a loop that ran over `src`, and says whether to close. -/
def flush (io : Io σ) (src : Bytes) (q : Processed σ) : Pass σ (List Bytes) × Action :=
  let consumed := src.length - q.rest.length
  if consumed = 0 then (q.pass, .none)
  else if q.out ≠ [] ∧ (io.moment q.pass.count).writeFails then (q.pass, .close)
  else
    ({ q.pass with state := (q.pass.state.send q.out).discard consumed },
      if q.pass.state.closeAfterReply then .close else .none)

def onTrafficPlaintext (srv : Server σ) (io : Io σ) (p : Pass σ (List Bytes)) :
    Pass σ (List Bytes) × Action :=
  let buf := p.state.inbound
  if p.state.authPending then (p, .none)
  else if srv.startTLS ∧ hasPipelinedSTARTTLS buf buf.length buf then (p, .close)
  else
    let q := srv.processBuffer io p buf
    match q.stop with
    | .bad => (q.pass, .close)
    | .upgraded => (q.pass, .none)
    | .done => flush io buf q

def handleDecryptedResp (srv : Server σ) (io : Io σ) (p : Pass σ (List Bytes)) (t : Tls) :
    Pass σ (List Bytes) × Action :=
  if p.state.authPending then (p, .none)
  else
    let q := srv.processBuffer io p t.readBuf
    if q.stop = .bad then (q.pass, .close)
    else flush io t.readBuf q

def maxTLSReadBuf : Nat := 64 * 1024 * 1024

def grow (t : Tls) : Option Tls :=
  if t.readBuf.length ≠ t.bufCap then some t
  else if full : maxTLSReadBuf ≤ t.bufCap then none
  else
    some { t with
      bufCap := min (2 * t.bufCap) maxTLSReadBuf
      fits := by
        have fits := t.fits
        omega
      positive := by
        have positive := t.positive
        omega }

def onTrafficTLS (srv : Server σ) (io : Io σ) : Nat → Pass σ (List Bytes) →
    Pass σ (List Bytes) × Action
  | 0, p => (p, .halt)
  | fuel + 1, p =>
    match p.state.tls.bind grow with
    | none => (p, .close)
    | some t => p.turn t (srv.handleDecryptedResp io) (srv.onTrafficTLS io fuel)

def onTraffic (srv : Server σ) (io : Io σ) (core : Core σ) (st : ConnState) :
    Served (Core σ) ConnState (Entry σ (List Bytes)) AuthJob :=
  let (p, action) :=
    match st.tls with
    | none => srv.onTrafficPlaintext io (.start core st)
    | some t =>
      if t.handshakeCompleted = false ∧ io.late then (.start core st, .close)
      else srv.onTrafficTLS io (t.available + 1) (.start core st)
  p.ends action

/-- With a policy a connection starts out as the default user if that has no password. -/
def connectionAuth (srv : Server σ) (core : Core σ) : Bool × Option Rbac.SessionContext :=
  match srv.access with
  | .policy _ =>
    match core.policy.active with
    | some p =>
      if p.noPassDefault then
        (true, some (.new (ascii "default") (p.roleFor (ascii "default"))))
      else (false, none)
    | none => (false, none)
  | .password _ => (false, none)
  | .unrestricted => (true, none)

def onOpen (srv : Server σ) (io : Io σ) (core : Core σ) : ConnState :=
  let (authenticated, session) := srv.connectionAuth core
  .opened io.remoteAddr (srv.tls && !srv.startTLS) authenticated session

def frontEnd (srv : Server σ) : FrontEnd σ (List Bytes) where
  access := srv.access
  compare := srv.compare
  reply success := if success then respOK else invalidPassword
  onOpen := srv.onOpen
  onTraffic := srv.onTraffic

end Server

end Tellstone.Resp
