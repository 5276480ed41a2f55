import Tellstone.Network.Admin
import Tellstone.Network.Pipelining

/-! What the binary listener writes: one frame for every frame that is not a PING, in the order
of the requests. -/
namespace Tellstone.Network
open ByteStream EventLoop Frontend

theorem roleReply_isSome (text : Option Bytes) : (roleReply text).payload.isSome = true := by
  cases text <;> rfl

theorem listReply_isSome (tooLong : Bytes) (payload : Option Bytes) :
    (listReply tooLong payload).payload.isSome = true := by
  cases payload <;> rfl

theorem setUserOf_isSome (pl : Platform) (family salt value : Bytes) (s : Rbac.Store) :
    (setUserOf pl family salt value s).2.payload.isSome = true := by
  unfold setUserOf
  simp only
  split
  · split
    · rfl
    · split
      · rfl
      · exact roleReply_isSome _
  · rfl

theorem changeNamed_isSome (pl : Platform) (command value : Bytes) (s : Rbac.Store)
    (change : Bytes → Rbac.Store × Option Rbac.Error) :
    (changeNamed pl command value s change).2.payload.isSome = true := by
  unfold changeNamed
  split
  · exact roleReply_isSome _
  · rfl

theorem handlers_isSome (pl : Platform) (salt : Bytes) (op : OpCode) (value : Bytes)
    (s : Rbac.Store) : (handlers pl salt op value s).2.payload.isSome = true := by
  cases op with
  | get | set | delete => rfl
  | roleCreate =>
    simp only [handlers, roleCreate]
    split
    · exact roleReply_isSome _
    · rfl
  | roleSetUser => exact setUserOf_isSome ..
  | roleDelUser => exact changeNamed_isSome ..
  | roleDelete => exact changeNamed_isSome ..
  | roleList =>
    simp only [handlers, roleList]
    split
    · rfl
    · exact listReply_isSome _ _
  | roleGetUser =>
    simp only [handlers, roleGetUser]
    split
    · split
      · rfl
      · split <;> rfl
    · rfl
  | aclSetUser => exact setUserOf_isSome ..
  | aclDelUser => exact changeNamed_isSome ..
  | aclList =>
    simp only [handlers, aclList]
    split
    · rfl
    · exact listReply_isSome _ _
  | aclLog => exact listReply_isSome _ _

section
variable {σ : Type} (S : Command.Store σ) (now : Nat) (remote : Bytes) (policy : Option Rbac.Store)
  (st : σ)

theorem runCommand_isSome {name : Bytes} {cmd : Command.DataCommand}
    (found : Command.lookup (some name) = some cmd) (args : List Bytes) (ttl : Duration) :
    (runCommand S now (name :: args) ttl remote policy st).answer.payload.isSome = true := by
  have replies : ∃ reply,
      (Command.execute S now ⟨(name :: args).map some, ttl, none, none, remote⟩ st).reply =
        some reply := Command.execute_replies found
  obtain ⟨reply, replied⟩ := replies
  simp only [runCommand, replied, Option.map_some, Option.getD_some]
  cases reply <;> rfl

theorem networkHandler_isSome (pl : Platform) (salt : Bytes) {msg : Message}
    (request : msg.hasType .ping = false) :
    (networkHandler S now (handlers pl salt) msg remote policy st).answer.payload.isSome =
      true := by
  unfold networkHandler
  rw [if_neg (by rw [request]; decide)]
  split
  · exact runCommand_isSome S now remote policy st rfl _ _
  · split
    · rfl
    · exact runCommand_isSome S now remote policy st rfl _ _
  · exact runCommand_isSome S now remote policy st rfl _ _
  · split
    · rfl
    · exact handlers_isSome pl salt _ _ _
  · rfl

end

def OneFrame (out : Bytes) : Prop :=
  ∃ type payload, 1 + payload.length < 2 ^ 32 ∧ out = write type payload

theorem write_length (type : MessageType) (payload : Bytes) :
    (write type payload).length = 5 + payload.length := by
  simp [write]
  omega

theorem oneFrame_of_size {out : Bytes} {type : MessageType} {payload : Bytes}
    (written : out = write type payload) (small : out.length < 2 ^ 32 + 4) : OneFrame out := by
  rw [written, write_length] at small
  exact ⟨type, payload, by omega, written⟩

theorem OneFrame.size {out : Bytes} (one : OneFrame out) :
    5 ≤ out.length ∧ out.length < 2 ^ 32 + 4 := by
  obtain ⟨type, payload, fits, rfl⟩ := one
  rw [write_length]
  omega

theorem reply_oneFrame {σ : Type} (srv : Server σ) (success : Bool) :
    OneFrame (srv.frontEnd.reply success) := by
  cases success with
  | true => exact ⟨.authOk, responseOK, by decide, rfl⟩
  | false => exact ⟨.authErr, responseAuthErr, by decide, rfl⟩

theorem Answer.bytes_write {a : Answer} (some : a.payload.isSome = true) :
    ∃ payload, a.bytes = write a.type payload := by
  obtain ⟨payload, present⟩ := Option.isSome_iff_exists.mp some
  refine ⟨payload, ?_⟩
  rw [bytes, present]
  rfl

section
variable {σ : Type} (srv : Server σ) (m : Moment σ) (st : ConnState) (core : Core σ) (msg : Message)

theorem dispatch_ping (ping : msg.hasType .ping = true) :
    (srv.dispatch m st core msg).out = [] ∧ (srv.dispatch m st core msg).job = none := by
  have type : msg.type = MessageType.ping.byte := of_decide_eq_true ping
  have other : msg.hasType .auth = false := by
    rw [Message.hasType, type]
    rfl
  have authorized : Server.opAuthorized msg st = true := by
    rw [Server.opAuthorized, ping]
    rfl
  have silent : (srv.runHandler m st core msg).out = [] := by
    simp only [Server.runHandler, networkHandler, if_pos ping]
    rfl
  unfold Server.dispatch
  rw [if_neg (by rw [other]; decide), if_neg (by rw [ping]; simp)]
  split
  · exact ⟨silent, rfl⟩
  · rw [if_pos authorized]
    exact ⟨silent, rfl⟩

theorem submit_out (job : AuthJob) (out : Bytes) :
    (Dispatched.submit m st core job out).job = none ∧
        (Dispatched.submit m st core job out).out = out ∨
      (Dispatched.submit m st core job out).job = some job ∧
        (Dispatched.submit m st core job out).out = [] := by
  unfold Dispatched.submit
  split
  · exact Or.inl ⟨rfl, rfl⟩
  · exact Or.inr ⟨rfl, rfl⟩

theorem handleAuthMessage_out (value : Bytes) :
    (srv.handleAuthMessage m st core value).job = none ∧
        (∃ success, (srv.handleAuthMessage m st core value).out = srv.frontEnd.reply success) ∨
      (srv.handleAuthMessage m st core value).job.isSome = true ∧
        (srv.handleAuthMessage m st core value).out = [] := by
  have submitted (job : AuthJob) :
      (Dispatched.submit m st core job invalidAuth).job = none ∧
          (∃ success, (Dispatched.submit m st core job invalidAuth).out =
            srv.frontEnd.reply success) ∨
        (Dispatched.submit m st core job invalidAuth).job.isSome = true ∧
          (Dispatched.submit m st core job invalidAuth).out = [] := by
    obtain ⟨none, out⟩ | ⟨some, out⟩ := submit_out m st core job invalidAuth
    · exact Or.inl ⟨none, false, out⟩
    · exact Or.inr ⟨by rw [some]; rfl, out⟩
  unfold Server.handleAuthMessage
  split
  · exact Or.inl ⟨rfl, true, rfl⟩
  · exact Or.inl ⟨rfl, false, rfl⟩
  · split
    · exact submitted _
    · split
      · exact Or.inl ⟨rfl, false, rfl⟩
      · simp only
        split
        · exact Or.inl ⟨rfl, false, rfl⟩
        · exact submitted _
  · split
    · exact Or.inl ⟨rfl, false, rfl⟩
    · exact submitted _

end

/-- Every frame but a PING is answered with one frame, or handed to the workers. -/
def Server.Responsive {σ : Type} (srv : Server σ) : Prop :=
  ∀ m st core msg, msg.hasType .ping = false →
    (srv.dispatch m st core msg).job = none ∧
        (∃ type payload, (srv.dispatch m st core msg).out = write type payload) ∨
      (srv.dispatch m st core msg).job.isSome = true ∧ (srv.dispatch m st core msg).out = []

theorem Server.administered_responsive {σ : Type} (srv : Server σ) (pl : Platform) :
    (srv.administered pl).Responsive := by
  intro m st core msg request
  have handled : ∃ type payload,
      ((srv.administered pl).runHandler m st core msg).out = write type payload := by
    obtain ⟨payload, written⟩ := Answer.bytes_write (networkHandler_isSome
      ((srv.administered pl).store m.now) m.now st.remoteAddr
      (((srv.administered pl).access.policy? core).map fun policy =>
        if msg.hasType .ping then policy else (st.session.map policy.countCommand).getD policy)
      core.store pl m.salt request)
    exact ⟨_, payload, written⟩
  unfold Server.dispatch
  split
  · obtain ⟨none, success, out⟩ | handed :=
      handleAuthMessage_out (srv.administered pl) m st core msg.value
    · obtain ⟨type, payload, -, written⟩ := reply_oneFrame (srv.administered pl) success
      exact Or.inl ⟨none, type, payload, out.trans written⟩
    · exact Or.inr handed
  split
  · exact Or.inl ⟨rfl, _, _, rfl⟩
  split
  · exact Or.inl ⟨rfl, handled⟩
  · split
    · exact Or.inl ⟨rfl, handled⟩
    · exact Or.inl ⟨rfl, _, _, rfl⟩

theorem dispatch_oneFrame {σ : Type} {srv : Server σ} (responsive : srv.Responsive) (m : Moment σ)
    (st : ConnState) (core : Core σ) (msg : Message)
    (done : (srv.dispatch m st core msg).job = none) :
    OneFrame (srv.dispatch m st core msg).out ↔
      msg.hasType .ping = false ∧ (srv.dispatch m st core msg).out.length < 2 ^ 32 + 4 := by
  constructor
  · intro one
    refine ⟨?_, one.size.2⟩
    by_contra ping
    have silent := (dispatch_ping srv m st core msg (eq_true_of_ne_false ping)).1
    have long := one.size.1
    rw [silent, List.length_nil] at long
    omega
  · rintro ⟨request, small⟩
    obtain ⟨-, _, _, written⟩ | ⟨handed, -⟩ := responsive m st core msg request
    · exact oneFrame_of_size written small
    · rw [done] at handed
      cases handed

/-- `later` is what was written once `msg` has its answer: a frame more, if it is owed one. -/
def Answered (owed : Message → Bool) (sent : Bytes) (msg : Message) (later : Bytes) : Prop :=
  if owed msg then ∃ answer, OneFrame answer ∧ later = sent ++ answer else later = sent

section
variable {σ : Type} (owed : Message → Bool)

/-- What may be written when the next frame is dispatched, if at first it was `due`. -/
def dueAfter : (Bytes → Prop) → List (Sight σ Message) → Bytes → Prop
  | due, [] => due
  | _, .did (.served st e) :: seen => dueAfter (Answered owed st.sent e.frame) seen
  | due, .did (.submitted _ _) :: seen => dueAfter due seen
  | due, .finished _ _ _ :: seen => dueAfter due seen

/-- Whenever a frame is dispatched, the one before it has its answer and nothing else was
written. -/
def InOrder : (Bytes → Prop) → List (Sight σ Message) → Prop
  | _, [] => True
  | due, .did (.served st e) :: seen => due st.sent ∧ InOrder (Answered owed st.sent e.frame) seen
  | due, .did (.submitted _ _) :: seen => InOrder due seen
  | due, .finished _ _ _ :: seen => InOrder due seen

/-- What is due was written, or will be with the frame that a pending verification brings. -/
def Caught (due : Bytes → Prop) (st : ConnState) : Prop :=
  if st.authPending then ∀ answer, OneFrame answer → due (st.sent ++ answer) else due st.sent

variable {owed}

theorem dueAfter_append (due : Bytes → Prop) (seen log : List (Sight σ Message)) :
    dueAfter owed due (seen ++ log) = dueAfter owed (dueAfter owed due seen) log := by
  fun_induction dueAfter owed due seen with
  | case1 => rfl
  | case2 due st e seen ih => exact ih
  | case3 due st job seen ih => exact ih
  | case4 due st job v seen ih => exact ih

theorem inOrder_append (due : Bytes → Prop) (seen log : List (Sight σ Message)) :
    InOrder owed due (seen ++ log) ↔
      InOrder owed due seen ∧ InOrder owed (dueAfter owed due seen) log := by
  fun_induction InOrder owed due seen with
  | case1 => simp [dueAfter]
  | case2 due st e seen ih => simp only [List.cons_append, InOrder, dueAfter, ih, and_assoc]
  | case3 due st job seen ih => exact ih
  | case4 due st job v seen ih => exact ih

theorem dueAfter_sights (due : Bytes → Prop) (st : ConnState) (core : Core σ) (msg : Message)
    (d : Dispatched σ) :
    dueAfter owed due (sights st core msg d) = Answered owed st.sent msg := by
  unfold sights
  cases d.job <;> rfl

theorem inOrder_sights (due : Bytes → Prop) (st : ConnState) (core : Core σ) (msg : Message)
    (d : Dispatched σ) : InOrder owed due (sights st core msg d) ↔ due st.sent := by
  unfold sights
  cases d.job <;> simp [InOrder]

theorem Caught.idle {due : Bytes → Prop} {st : ConnState} (caught : Caught due st)
    (idle : st.authPending = false) : due st.sent := by
  rwa [Caught, if_neg (by rw [idle]; decide)] at caught

theorem Caught.of_idle {due : Bytes → Prop} {st : ConnState} (idle : st.authPending = false)
    (written : due st.sent) : Caught due st := by
  rwa [Caught, if_neg (by rw [idle]; decide)]

theorem Caught.of_same {due : Bytes → Prop} {st st' : ConnState} (caught : Caught due st)
    (sent : st'.sent = st.sent) (pending : st'.authPending = st.authPending) :
    Caught due st' := by
  rwa [Caught, sent, pending]

end

def Message.answerable (msg : Message) : Bool := !msg.hasType .ping

theorem Message.answerable_iff (msg : Message) :
    msg.answerable = true ↔ msg.hasType .ping = false := by
  simp [answerable]

namespace Server

section
variable {σ : Type}

def Sized (srv : Server σ) : Sight σ Message → Prop
  | .did (.served st e) => ∀ m, (srv.dispatch m st e.before e.frame).out.length < 2 ^ 32 + 4
  | .did (.submitted _ _) => True
  | .finished _ _ _ => True

def Writes (srv : Server σ) (due : Bytes → Prop) (p : Pass σ Message) (action : Action) : Prop :=
  (∀ o ∈ p.log.map Obs.did, srv.Sized o) →
    InOrder Message.answerable due (p.log.map Obs.did) ∧
      (action = .none → Caught (dueAfter Message.answerable due (p.log.map Obs.did)) p.state)

theorem Writes.of_same {srv : Server σ} {due : Bytes → Prop} {p : Pass σ Message}
    (writes : srv.Writes due p .none) {st : ConnState} (sent : st.sent = p.state.sent)
    (pending : st.authPending = p.state.authPending) (action : Action) :
    srv.Writes due { p with state := st } action := by
  intro sized
  obtain ⟨order, caught⟩ := writes sized
  exact ⟨order, fun _ => (caught rfl).of_same sent pending⟩

theorem Writes.stops {srv : Server σ} {due : Bytes → Prop} {p : Pass σ Message} {action : Action}
    (writes : srv.Writes due p action) {stop : Action} (stops : stop ≠ .none) :
    srv.Writes due p stop :=
  fun sized => ⟨(writes sized).1, fun none => absurd none stops⟩

variable {srv : Server σ} {due : Bytes → Prop} {p : Pass σ Message}

section
variable (responsive : srv.Responsive)
include responsive

theorem Writes.take (writes : srv.Writes due p .none) (idle : p.state.authPending = false)
    (m : Moment σ) (core : Core σ) (msg : Message) {d : Dispatched σ}
    (dispatches : srv.dispatch m p.state core msg = d)
    (sized : ∀ o ∈ (p.take core msg d).log.map Obs.did, srv.Sized o) :
    let seen := (p.take core msg d).log.map Obs.did
    InOrder Message.answerable due seen ∧
      (d.job.isSome = true → Caught (dueAfter Message.answerable due seen) d.state) ∧
      (d.job = none → Caught (dueAfter Message.answerable due seen) (d.state.send d.out)) := by
  rw [Pass.sights_take] at sized
  obtain ⟨order, caught⟩ := writes fun o mem => sized o (List.mem_append_left _ mem)
  have written := (caught rfl).idle idle
  have small := sized (.did (.served p.state ⟨msg, d.kind, core, d.core⟩))
    (List.mem_append_right _ List.mem_cons_self) m
  have silent := dispatch_ping srv m p.state core msg
  have answers := dispatch_oneFrame responsive m p.state core msg
  have sent := (srv.dispatch_kept m p.state core msg).2.2
  have pending := (srv.dispatch_sound m p.state core msg False).pending idle
  simp only [dispatches] at small silent answers sent pending
  simp only [Pass.sights_take, inOrder_append, inOrder_sights, dueAfter_append, dueAfter_sights]
  refine ⟨⟨order, written⟩, fun handed => ?_, fun done => ?_⟩
  · rw [Caught, if_pos (pending.trans handed)]
    intro answer one
    have owed : msg.answerable = true := by
      rw [Message.answerable_iff]
      by_contra ping
      rw [(silent (eq_true_of_ne_false ping)).2] at handed
      cases handed
    rw [Answered, if_pos owed]
    exact ⟨answer, one, by rw [sent]⟩
  · refine Caught.of_idle (pending.trans (by rw [done]; rfl)) ?_
    rw [ConnState.send, sent, Answered]
    split
    · rename_i owed
      exact ⟨d.out, (answers done).mpr ⟨msg.answerable_iff.mp owed, small⟩, rfl⟩
    · rename_i free
      have ping : msg.hasType .ping = true := by
        by_contra request
        exact free (msg.answerable_iff.mpr (eq_false_of_ne_true request))
      rw [(silent ping).1, List.append_nil]

theorem Framed.writes {io : Io σ} {buf : Bytes} {r : Pass σ Message × Bytes × Action}
    (framed : Framed srv io p buf r) (writes : srv.Writes due p .none)
    (idle : p.state.authPending = false) : srv.Writes due r.1 r.2.2 := by
  induction framed with
  | waits short => exact writes
  | stuck beyond => exact writes.stops (fun none => by cases none)
  | refused => exact writes.stops (fun none => by cases none)
  | handed next submitted =>
    intro sized
    obtain ⟨order, caught, -⟩ := writes.take responsive idle _ _ _ next.dispatches sized
    exact ⟨order, fun _ => caught submitted⟩
  | unwritten next answered =>
    intro sized
    exact ⟨(writes.take responsive idle _ _ _ next.dispatches sized).1, fun none => by cases none⟩
  | closes next answered =>
    intro sized
    exact ⟨(writes.take responsive idle _ _ _ next.dispatches sized).1, fun none => by cases none⟩
  | goesOn next answered stays later ih =>
    refine ih (fun sized => ?_) (next.idle answered idle)
    obtain ⟨order, -, caught⟩ := writes.take responsive idle _ _ _ next.dispatches sized
    exact ⟨order, fun _ => caught (by simpa using answered)⟩

theorem serveFrames_writes (io : Io σ) (buf : Bytes) (writes : srv.Writes due p .none) :
    srv.Writes due (srv.serveFrames io p buf).1 (srv.serveFrames io p buf).2 := by
  unfold serveFrames
  split
  · exact writes
  rename_i idle
  have framed : Framed srv io p buf _ := srv.frames_framed io (Nat.le_refl buf.length)
  have served := framed.writes responsive writes (eq_false_of_ne_true idle)
  simp only
  split
  · exact served
  · rename_i through
    rw [not_not.mp through] at served
    refine served.of_same ?_ (ConnState.discard_rebuffered _ _).authPending _
    unfold ConnState.discard
    split <;> rfl

theorem onTrafficTLS_writes (io : Io σ) (fuel : Nat) (writes : srv.Writes due p .none) :
    srv.Writes due (srv.onTrafficTLS io fuel p).1 (srv.onTrafficTLS io fuel p).2 := by
  induction fuel generalizing p with
  | zero => exact writes.stops (fun none => by cases none)
  | succ fuel ih =>
    simp only [onTrafficTLS]
    split
    · exact writes
    rename_i t encrypted
    have filled : srv.Writes due (p.withTls t.fill.1) .none := writes.of_same rfl rfl .none
    refine Pass.turn_keeps (K := fun r => srv.Writes due r.1 r.2) filled
      (serveFrames_writes responsive io t.fill.1.readBuf filled) ?_ (fun q next => ih next)
    intro q next
    exact next.stops (fun none => by cases none)

theorem onTraffic_writes (io : Io σ) (core : Core σ) {st : ConnState} (caught : Caught due st)
    (sized : ∀ o ∈ (srv.onTraffic io core st).log.map Obs.did, srv.Sized o) :
    let r := srv.onTraffic io core st
    InOrder Message.answerable due (r.log.map Obs.did) ∧
      (r.action = .none →
        Caught (dueAfter Message.answerable due (r.log.map Obs.did)) r.state) := by
  have start : srv.Writes due (.start core st) .none := fun _ => ⟨trivial, fun _ => caught⟩
  cases encrypted : st.tls with
  | none =>
    simp only [onTraffic, encrypted] at sized ⊢
    exact serveFrames_writes responsive io st.inbound start sized
  | some t =>
    simp only [onTraffic, encrypted] at sized ⊢
    exact onTrafficTLS_writes responsive io (t.available + 1) start sized

end

theorem callback_sent (srv : Server σ) (io : Io σ) (core : Core σ) (st : ConnState) (job : AuthJob)
    (v : Verdict) :
    (io.callback.writeFails = true →
      (callback srv.access srv.frontEnd.reply io core st job v).closes = true ∧
        (callback srv.access srv.frontEnd.reply io core st job v).state.sent = st.sent) ∧
    (io.callback.writeFails = false →
      (callback srv.access srv.frontEnd.reply io core st job v).state.sent =
        st.sent ++ srv.frontEnd.reply v.success) := by
  have settled (now : Nat) (core : Core σ) :
      (settleAuth srv.access now st core job v).1.sent = st.sent := by
    unfold settleAuth authFailed
    simp only
    split <;> rfl
  unfold callback
  simp only
  constructor
  · intro fails
    rw [if_pos fails]
    exact ⟨rfl, settled _ _⟩
  · intro succeeds
    rw [if_neg (by rw [succeeds]; decide), ConnState.send, settled]

/-- What was seen of a connection and is left of it, as long as no answer is too long. -/
def Pairs (srv : Server σ) (seen : List (Sight σ Message))
    (conn : Option (Conn ConnState AuthJob Verdict)) : Prop :=
  (∀ o ∈ seen, srv.Sized o) →
    InOrder Message.answerable (· = []) seen ∧
      ∀ c ∈ conn, Caught (dueAfter Message.answerable (· = []) seen) c.state

section
variable {seen : List (Sight σ Message)} {conn : Option (Conn ConnState AuthJob Verdict)}
  {c : Conn ConnState AuthJob Verdict}

theorem Pairs.closed (pairs : srv.Pairs seen conn) : srv.Pairs seen none :=
  fun sized => ⟨(pairs sized).1, fun _ here => by cases here⟩

theorem Pairs.queued (pairs : srv.Pairs seen conn) (there : conn = some c)
    (tasks : List (Task AuthJob Verdict)) : srv.Pairs seen (some ⟨c.state, tasks⟩) := by
  intro sized
  refine ⟨(pairs sized).1, ?_⟩
  rintro _ ⟨⟩
  exact (pairs sized).2 c there

theorem Pairs.serve (pairs : srv.Pairs seen conn) (responsive : srv.Responsive)
    (there : conn = some c) (io : Io σ) (core : Core σ) {st : ConnState}
    (sent : st.sent = c.state.sent) (pending : st.authPending = c.state.authPending)
    (tasks : List (Task AuthJob Verdict)) :
    srv.Pairs (seen ++ (srv.onTraffic io core st).log.map Obs.did)
      ((srv.onTraffic io core st).left tasks) := by
  intro sized
  obtain ⟨order, caught⟩ := pairs fun o mem => sized o (List.mem_append_left _ mem)
  obtain ⟨next, left⟩ := onTraffic_writes responsive io core ((caught c there).of_same sent pending)
    fun o mem => sized o (List.mem_append_right _ mem)
  refine ⟨(inOrder_append _ _ _).mpr ⟨order, next⟩, fun d here => ?_⟩
  obtain ⟨stays, rfl⟩ := Served.mem_left here
  rw [dueAfter_append]
  exact left stays

theorem Pairs.finish (pairs : srv.Pairs seen (some c)) (pending : c.state.authPending = true)
    {io : Io σ} (succeeds : io.callback.writeFails = false) (core : Core σ) (job : AuthJob)
    (v : Verdict) (tasks : List (Task AuthJob Verdict)) :
    srv.Pairs (seen ++ [.finished c.state job v])
      (some ⟨(srv.frontEnd.listener.finish io core c.state job v).state, tasks⟩) := by
  intro sized
  obtain ⟨order, caught⟩ := pairs fun o mem => sized o (List.mem_append_left _ mem)
  have waits := caught c rfl
  rw [Caught, if_pos pending] at waits
  refine ⟨(inOrder_append _ _ _).mpr ⟨order, trivial⟩, ?_⟩
  rintro _ ⟨⟩
  rw [dueAfter_append]
  refine Caught.of_idle (srv.drains.one.finish io core c.state job v) ?_
  have sent := (srv.callback_sent io core c.state job v).2 succeeds
  exact sent ▸ waits _ (reply_oneFrame _ _)

theorem onTraffic_pending (srv : Server σ) {io : Io σ} {core : Core σ} {st : ConnState}
    (pending : st.authPending = true) (stays : (srv.onTraffic io core st).action = .none) :
    (srv.onTraffic io core st).state.authPending = true := by
  obtain ⟨few, same⟩ := srv.drains.one.traffic io core st
  have count : (srv.onTraffic io core st).state.authPending.toNat = _ := same stays
  rw [pending, Bool.toNat_true] at few count
  exact Bool.toNat_eq_one.mp (by omega)

def Delivers (id : Nat) (ev : Happening σ) : Prop :=
  ∀ io, ev = .task id io → io.callback.writeFails = false

theorem Pairs.turn {w : EventLoop.World (Core σ) ConnState AuthJob Verdict} {id : Nat}
    (pairs : srv.Pairs seen (w.conns id)) (responsive : srv.Responsive)
    (tracked : w.Tracked ConnState.authPending) {ev : Happening σ} (delivers : Delivers id ev)
    {log : List (Sight σ Message)} (turn : w.Turn srv.frontEnd.listener id ev conn log) :
    srv.Pairs (seen ++ log) conn := by
  cases turn with
  | idle unread => rwa [List.append_nil]
  | refused io gone =>
    rw [List.append_nil]
    exact pairs.closed
  | readable io c there =>
    refine pairs.serve responsive there io w.backend ?_
      (c.state.receive_rebuffered io.arrival).authPending _
    simp only [ConnState.receive]
    split <;> rfl
  | wake io c tasks there first => exact pairs.serve responsive there io w.backend rfl rfl tasks
  | broken io c job v tasks there first ends =>
    exact (pairs.serve responsive there io w.backend rfl rfl tasks).closed
  | finish io c job v tasks there first stays =>
    have served := pairs.serve responsive there io w.backend rfl rfl tasks
    have pending := srv.onTraffic_pending (tracked.finishing there first) stays
    have kept : (srv.onTraffic io w.backend c.state).action = .none := stays
    rw [Served.left, if_pos kept] at served
    rw [← List.append_assoc]
    exact served.finish pending (delivers io rfl) _ job v _
  | closed io c tasks there first =>
    rw [List.append_nil]
    exact pairs.closed
  | verified i job oracle c there busy =>
    rw [List.append_nil]
    exact pairs.queued there _
  | expire c there =>
    rw [List.append_nil]
    exact pairs.queued there _
  | hangup =>
    rw [List.append_nil]
    exact pairs.closed

end

theorem life_pairs (responsive : srv.Responsive) (l : Session σ)
    (delivers : (l.accepted srv.frontEnd.listener).Along srv.frontEnd.listener
      (fun _ => Delivers (l.id srv.frontEnd.listener)) l.events) :
    srv.Pairs (l.seen srv.frontEnd.listener) (l.conn srv.frontEnd.listener) := by
  refine (l.follows srv.drains.one (fun _ => srv.Pairs) ?_ ?_ delivers).1
  · intro _
    refine ⟨trivial, ?_⟩
    rintro _ ⟨⟩
    exact Caught.of_idle rfl rfl
  · intro w events seen ev conn log tracked now pairs turn
    exact pairs.turn responsive tracked now turn

end

end Server

/-- Each frame finds those before it answered with one frame each. -/
def Paired {σ : Type} (seen : List (Sight σ Message))
    (conn : Option (Conn ConnState AuthJob Verdict)) : Prop :=
  InOrder (fun _ => true) (· = []) seen ∧
    ∀ c ∈ conn, Caught (dueAfter (fun _ => true) (· = []) seen) c.state

section
variable {σ : Type} {owed owed' : Message → Bool} {seen : List (Sight σ Message)}

theorem dueAfter_undispatched (nothing : dispatched seen = []) (due : Bytes → Prop) :
    dueAfter owed due seen = due := by
  fun_induction dueAfter owed due seen with
  | case1 => rfl
  | case2 due st e seen ih => cases nothing
  | case3 due st job seen ih => exact ih nothing
  | case4 due st job v seen ih => exact ih nothing

theorem inOrder_undispatched (nothing : dispatched seen = []) (due : Bytes → Prop) :
    InOrder owed due seen := by
  fun_induction InOrder owed due seen with
  | case1 => trivial
  | case2 due st e seen ih => cases nothing
  | case3 due st job seen ih => exact ih nothing
  | case4 due st job v seen ih => exact ih nothing

theorem InOrder.undispatched {due other : Bytes → Prop} (clash : ∀ sent, due sent → ¬other sent)
    (order : InOrder owed due seen) (order' : InOrder owed' other seen) :
    dispatched seen = [] := by
  fun_induction InOrder owed due seen with
  | case1 => rfl
  | case2 due st e seen ih => exact absurd order'.1 (clash _ order.1)
  | case3 due st job seen ih => exact ih clash order order'
  | case4 due st job v seen ih => exact ih clash order order'

theorem Caught.clash {due other : Bytes → Prop} {st : ConnState}
    (clash : ∀ sent, due sent → ¬other sent) (caught : Caught due st) : ¬Caught other st := by
  intro caught'
  cases pending : st.authPending with
  | false => exact clash _ (caught.idle pending) (caught'.idle pending)
  | true =>
    have one : OneFrame invalidAuth := ⟨.authErr, responseAuthErr, by decide, rfl⟩
    rw [Caught, if_pos pending] at caught caught'
    exact clash _ (caught _ one) (caught' _ one)

theorem Answered.clash {sent later : Bytes} {msg : Message} (free : msg.answerable = false)
    (silent : Answered Message.answerable sent msg later) :
    ¬Answered (fun _ => true) sent msg later := by
  rw [Answered, if_neg (by rw [free]; decide)] at silent
  rw [Answered, if_pos rfl]
  rintro ⟨answer, one, longer⟩
  have same : sent ++ [] = sent ++ answer := by rw [List.append_nil, ← longer, silent]
  have size := one.size.1
  rw [← List.append_cancel_left same, List.length_nil] at size
  omega

theorem paired_iff {due : Bytes → Prop} {conn : Option (Conn ConnState AuthJob Verdict)}
    (order : InOrder Message.answerable due seen)
    (caught : ∀ c ∈ conn, Caught (dueAfter Message.answerable due seen) c.state) :
    (InOrder (fun _ => true) due seen ∧
        ∀ c ∈ conn, Caught (dueAfter (fun _ => true) due seen) c.state) ↔
      (∀ msg ∈ (dispatched seen).dropLast, msg.hasType .ping = false) ∧
        (conn ≠ none → ∀ msg ∈ dispatched seen, msg.hasType .ping = false) := by
  fun_induction InOrder Message.answerable due seen with
  | case1 due => exact iff_of_true ⟨trivial, caught⟩ ⟨by simp [dispatched], by simp [dispatched]⟩
  | case3 due st job seen ih => exact ih order caught
  | case4 due st job v seen ih => exact ih order caught
  | case2 due st e seen ih =>
    obtain ⟨written, rest⟩ := order
    have frames : dispatched (.did (.served st e) :: seen) = e.frame :: dispatched seen := rfl
    cases owed : e.frame.answerable with
    | true =>
      have same : Answered Message.answerable st.sent e.frame =
          Answered (fun _ => true) st.sent e.frame := by
        funext later
        simp only [Answered, owed]
      have request := e.frame.answerable_iff.mp owed
      have next := ih rest caught
      simp only [InOrder, dueAfter, ← same, written, true_and]
      rw [next, frames]
      cases dispatched seen <;> simp [request]
    | false =>
      have clash : ∀ sent, Answered Message.answerable st.sent e.frame sent →
          ¬Answered (fun _ => true) st.sent e.frame sent := fun _ => Answered.clash owed
      have ping : e.frame.hasType .ping = true := by simpa [Message.answerable] using owed
      rw [frames]
      constructor
      · rintro ⟨⟨-, order'⟩, caught'⟩
        have nothing := InOrder.undispatched clash rest order'
        cases conn with
        | none => simp [nothing]
        | some c =>
          have now := caught c rfl
          have now' := caught' c rfl
          simp only [dueAfter] at now now'
          rw [dueAfter_undispatched nothing] at now now'
          exact absurd now' (now.clash clash)
      · rintro ⟨before, last⟩
        have closed : conn = none := by
          by_contra still
          exact Bool.false_ne_true ((last still _ List.mem_cons_self).symm.trans ping)
        have nothing : dispatched seen = [] := by
          by_contra more
          rw [List.dropLast_cons_of_ne_nil more] at before
          exact Bool.false_ne_true ((before _ List.mem_cons_self).symm.trans ping)
        refine ⟨⟨written, inOrder_undispatched nothing _⟩, fun c here => ?_⟩
        rw [closed] at here
        cases here

end

theorem dispatch_refused {σ : Type} (srv : Server σ) (m : Moment σ) {st : ConnState}
    (core : Core σ) (msg : Message) (refused : st.authenticated = false) :
    (srv.dispatch m st core msg).out.length < 2 ^ 32 + 4 := by
  by_cases ping : msg.hasType .ping = true
  · rw [(dispatch_ping srv m st core msg ping).1]
    decide
  unfold Server.dispatch
  split
  · obtain ⟨-, success, out⟩ | ⟨-, out⟩ := handleAuthMessage_out srv m st core msg.value
    · rw [out]
      exact (reply_oneFrame srv success).size.2
    · rw [out]
      decide
  · rw [if_pos ⟨refused, eq_false_of_ne_true ping⟩]
    exact (reply_oneFrame srv false).size.2

end Tellstone.Network
