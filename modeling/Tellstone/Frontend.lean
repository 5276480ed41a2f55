import Tellstone.Command
import Tellstone.Lib.EventLoop

/-! What both front ends are made of: the state of a connection, the TLS layer below it,
the verification of credentials by workers, and one call of the traffic handler. -/
namespace Tellstone.Frontend
open ByteStream EventLoop

/-- What a client has to show. A token provider comes with a policy only. -/
inductive Access where
  | unrestricted
  | password (hash : { h : Bytes // h ≠ [] })
  | policy (oauth : Bool)
  deriving DecidableEq, Repr

/-- What all connections share. The policy counts only where access is by policy. -/
structure Core (σ : Type) where
  store : σ
  policy : Rbac.Store

def Access.policy? {σ : Type} (a : Access) (core : Core σ) : Option Rbac.Store :=
  match a with
  | policy _ => some core.policy
  | _ => none

inductive ReadError where
  | notEnough
  | other
  deriving DecidableEq, Repr

/-- Behind the last record: nothing yet, an alert, or something that the next read fails on. -/
inductive Ending where
  | quiet
  | alert
  | failure
  deriving DecidableEq, Repr

/-- `hello`: the peer's part of the handshake is there; `input`: the rest of the record being
read; `readBuf`: the front end's buffer. -/
structure Tls where
  hello : Bool
  handshakeCompleted : Bool
  input : Bytes
  records : List Bytes
  ending : Ending
  readBuf : Bytes
  bufCap : Nat
  fits : readBuf.length ≤ bufCap
  positive : 0 < bufCap
  deriving DecidableEq, Repr

namespace Tls

def server : Tls := ⟨false, false, [], [], .quiet, [], 4096, by decide, by decide⟩

def available (t : Tls) : Nat := t.input.length + t.records.flatten.length

def readError (t : Tls) : ReadError := if t.ending = .quiet then .notEnough else .other

def nextRecord (t : Tls) : Bytes × List Bytes :=
  if t.input ≠ [] then (t.input, t.records)
  else
    match t.records.dropWhile List.isEmpty with
    | [] => ([], [])
    | record :: records => (record, records)

/-- Drives the handshake, then reads into a buffer with so much room. A waiting alert comes with
the last bytes before it. -/
def read (t : Tls) (room : Nat) : Tls × Bytes × Option ReadError :=
  let t := { t with handshakeCompleted := t.handshakeCompleted || t.hello }
  if t.handshakeCompleted = false then (t, [], some t.readError)
  else if room = 0 then (t, [], none)
  else
    let (record, records) := t.nextRecord
    let t := { t with input := record.drop room, records := records }
    if record = [] then (t, [], some t.readError)
    else if t.input = [] ∧ records = [] ∧ t.ending = .alert then
      (t, record.take room, some .other)
    else (t, record.take room, none)

theorem nextRecord_available (t : Tls) :
    t.nextRecord.1.length + t.nextRecord.2.flatten.length ≤ t.available := by
  unfold nextRecord available
  split
  · exact Nat.le_refl _
  · have parts : t.records.flatten = (t.records.takeWhile List.isEmpty).flatten ++
        (t.records.dropWhile List.isEmpty).flatten := by
      rw [← List.flatten_append, List.takeWhile_append_dropWhile]
    rw [parts]
    split
    · exact Nat.zero_le _
    · rename_i record records left
      simp only [left, List.flatten_cons, List.length_append]
      omega

theorem read_available {t t' : Tls} {room : Nat} {data : Bytes} (positive : 0 < room)
    (fine : t.read room = (t', data, none)) : t'.available < t.available ∧ data ≠ [] := by
  unfold read at fine
  simp only at fine
  split at fine
  · cases fine
  rw [if_neg (Nat.ne_of_gt positive)] at fine
  split at fine
  · cases fine
  rename_i present
  split at fine
  · cases fine
  cases fine
  have known := nextRecord_available { t with handshakeCompleted := t.handshakeCompleted || t.hello }
  have some := List.length_pos_iff.mpr present
  constructor
  · simp only [available, List.length_drop] at known ⊢
    omega
  · intro nothing
    have empty := congrArg List.length nothing
    simp only [List.length_take, List.length_nil] at empty
    omega

def append (t : Tls) (data : Bytes) : Tls :=
  { t with
    readBuf := t.readBuf ++ data.take (t.bufCap - t.readBuf.length)
    fits := by
      have fits := t.fits
      simp only [List.length_append, List.length_take]
      omega }

def fill (t : Tls) : Tls × Bool × Option ReadError :=
  let (t, data, err) := t.read (t.bufCap - t.readBuf.length)
  (t.append data, decide (data ≠ []), err)

theorem fill_available {t : Tls} (room : t.readBuf.length < t.bufCap) (fine : t.fill.2.2 = none) :
    t.fill.1.available < t.available ∧ t.fill.2.1 = true := by
  rcases result : t.read (t.bufCap - t.readBuf.length) with ⟨t', data, err⟩
  unfold fill at fine ⊢
  simp only [result] at fine ⊢
  subst fine
  obtain ⟨less, present⟩ := read_available (Nat.sub_pos_of_lt room) result
  exact ⟨less, decide_eq_true present⟩

def discard (t : Tls) (n : Nat) : Tls :=
  { t with
    readBuf := t.readBuf.drop n
    fits := by
      have fits := t.fits
      simp only [List.length_drop]
      omega }

end Tls

/-- A connection, with the plaintext not consumed yet and what was written. Only RESP upgrades to
TLS. -/
structure ConnState where
  inbound : Bytes
  sent : Bytes
  tls : Option Tls
  authenticated : Bool
  session : Option Rbac.SessionContext
  remoteAddr : Bytes
  closeAfterReply : Bool
  upgradeTLS : Bool
  authPending : Bool
  authFails : Nat
  deriving DecidableEq, Repr

/-- What the peer sent: bytes on a plaintext connection, records on one with TLS. -/
structure Arrival where
  bytes : Bytes
  hello : Bool
  records : List Bytes
  ending : Ending

def Tls.receive (t : Tls) (a : Arrival) : Tls :=
  { t with
    hello := t.hello || a.hello
    records := t.records ++ a.records
    ending := if t.ending = .quiet then a.ending else t.ending }

namespace ConnState

def receive (st : ConnState) (a : Arrival) : ConnState :=
  match st.tls with
  | none => { st with inbound := st.inbound ++ a.bytes }
  | some t => { st with tls := some (t.receive a) }

def available (st : ConnState) : Nat := (st.tls.map Tls.available).getD 0

def discard (st : ConnState) (n : Nat) : ConnState :=
  match st.tls with
  | none => { st with inbound := st.inbound.drop n }
  | some t => { st with tls := some (t.discard n) }

theorem discard_available (st : ConnState) (n : Nat) : (st.discard n).available = st.available := by
  unfold discard available
  cases st.tls <;> rfl

def send (st : ConnState) (out : Bytes) : ConnState := { st with sent := st.sent ++ out }

def opened (remoteAddr : Bytes) (tls authenticated : Bool) (session : Option Rbac.SessionContext) :
    ConnState :=
  ⟨[], [], if tls then some .server else none, authenticated, session, remoteAddr, false, false,
    false, 0⟩

end ConnState

/-- What the outside decides around one command: the clock, what others did before it, saturated
workers, a salt, and the fate of a write. -/
structure Moment (σ : Type) where
  now : Nat
  others : Core σ → Core σ
  saturated : Bool
  salt : Bytes
  writeFails : Bool

/-- What the outside decides in a call: the peer, what came in, a late handshake, and the moments
of the commands and of a callback. -/
structure Io (σ : Type) where
  remoteAddr : Bytes
  arrival : Arrival
  late : Bool
  moment : Nat → Moment σ
  callback : Moment σ

def maxAuthFails : Nat := 3

structure AuthJob where
  password : Bytes
  passHash : Bytes
  username : Bytes
  reason : Bytes
  session : Option Rbac.SessionContext
  oauth : Bool
  deriving DecidableEq, Repr

structure Verdict where
  success : Bool
  session : Option Rbac.SessionContext
  username : Bytes
  deriving DecidableEq, Repr

/-- `compare` is bcrypt, `claims` what the provider makes of a token; a nil hash is a user without
password. -/
def authWorker {σ : Type} (compare : Bytes → Bytes → Bool) (claims : Option Rbac.Claims)
    (core : Core σ) (job : AuthJob) : Verdict :=
  if job.oauth then
    match core.policy.resolveOAuthToken claims with
    | some (session, username) => ⟨true, some session, username⟩
    | none => ⟨false, none, []⟩
  else
    ⟨decide (job.passHash = []) || compare job.passHash job.password, job.session, job.username⟩

def isJWT (b : Bytes) : Bool := decide (b.count 46 = 2) && decide (5 ≤ b.length)

section
variable {σ φ : Type}

/-- Counts and logs a rejected AUTH; the last one allowed closes the connection. -/
def authFailed (access : Access) (now : Nat) (st : ConnState) (core : Core σ)
    (username reason : Bytes) : ConnState × Core σ :=
  ({ st with
      authFails := st.authFails + 1
      closeAfterReply := st.closeAfterReply || decide (maxAuthFails ≤ st.authFails + 1) },
    match access with
    | .policy _ =>
      { core with policy := core.policy.logAuthFailure now username st.remoteAddr reason }
    | _ => core)

def settleAuth (access : Access) (now : Nat) (st : ConnState) (core : Core σ) (job : AuthJob)
    (v : Verdict) : ConnState × Core σ :=
  let st := { st with authPending := false }
  if v.success then ({ st with authenticated := true, session := v.session }, core)
  else authFailed access now st core v.username job.reason

/-- The reply is written, and the connection closes if that fails or a close is due. -/
def callback (access : Access) (reply : Bool → Bytes) (io : Io σ) (core : Core σ) (st : ConnState)
    (job : AuthJob) (v : Verdict) : Finished (Core σ) ConnState :=
  let (st, core) := settleAuth access io.callback.now st (io.callback.others core) job v
  if io.callback.writeFails then ⟨core, st, true⟩
  else ⟨core, st.send (reply v.success), st.closeAfterReply⟩

/-- What a command came to: an AUTH, the store, the policy, a recorded denial, or none of these. -/
inductive Kind where
  | auth
  | data
  | policy
  | other
  deriving DecidableEq, Repr

/-- A dispatched command, with the shared state right before and after it. -/
structure Entry (σ φ : Type) where
  frame : φ
  kind : Kind
  before : Core σ
  after : Core σ

/-- How the dispatch of a command ends. A job goes to the workers and has no reply yet. -/
structure Dispatched (σ : Type) where
  core : Core σ
  state : ConnState
  out : Bytes
  kind : Kind
  job : Option AuthJob

def Dispatched.rejected (access : Access) (m : Moment σ) (st : ConnState) (core : Core σ)
    (username reason out : Bytes) : Dispatched σ :=
  let (st, core) := authFailed access m.now st core username reason
  ⟨core, st, out, .auth, none⟩

/-- Hands a job to the workers. If they are saturated the AUTH is refused, and not counted. -/
def Dispatched.submit (m : Moment σ) (st : ConnState) (core : Core σ) (job : AuthJob)
    (out : Bytes) : Dispatched σ :=
  if m.saturated then ⟨core, st, out, .auth, none⟩
  else ⟨core, { st with authPending := true }, [], .auth, some job⟩

/-- A call of the traffic handler so far, and how many commands it has dispatched. -/
structure Pass (σ φ : Type) where
  core : Core σ
  state : ConnState
  log : List (Note ConnState (Entry σ φ) AuthJob)
  count : Nat

namespace Pass

def start (core : Core σ) (st : ConnState) : Pass σ φ := ⟨core, st, [], 0⟩

def take (p : Pass σ φ) (core : Core σ) (frame : φ) (d : Dispatched σ) : Pass σ φ :=
  ⟨d.core, d.state,
    p.log ++ .served p.state ⟨frame, d.kind, core, d.core⟩ ::
      d.job.toList.map fun job => .submitted p.state job,
    p.count + 1⟩

def withTls (p : Pass σ φ) (t : Tls) : Pass σ φ :=
  { p with state := { p.state with tls := some t } }

/-- One turn over the TLS layer: read, serve, and go on unless the read tells otherwise. -/
def turn (p : Pass σ φ) (t : Tls) (serve : Pass σ φ → Tls → Pass σ φ × Action)
    (goOn : Pass σ φ → Pass σ φ × Action) : Pass σ φ × Action :=
  let (t, gotSome, err) := t.fill
  let (p, action) := if gotSome then serve (p.withTls t) t else (p.withTls t, .none)
  if action ≠ .none then (p, action)
  else
    match err with
    | some .notEnough => (p, .none)
    | some .other => (p, .close)
    | none => goOn p

def ends (p : Pass σ φ) (action : Action) : Served (Core σ) ConnState (Entry σ φ) AuthJob :=
  ⟨p.core, p.state, p.log, action⟩

end Pass

/-- What it asks of clients, does with connections and traffic, and replies in its callback. -/
structure FrontEnd (σ φ : Type) where
  access : Access
  compare : Bytes → Bytes → Bool
  reply : Bool → Bytes
  onOpen : Io σ → Core σ → ConnState
  onTraffic : Io σ → Core σ → ConnState → Served (Core σ) ConnState (Entry σ φ) AuthJob

def FrontEnd.listener (f : FrontEnd σ φ) :
    Listener (Io σ) (Option Rbac.Claims) (Core σ) ConnState (Entry σ φ) AuthJob Verdict where
  opened := f.onOpen
  receive io st := st.receive io.arrival
  traffic := f.onTraffic
  verify := authWorker f.compare
  finish := callback f.access f.reply

end

end Tellstone.Frontend
