import Tellstone.Frontend

/-! What a front end whose commands go through one dispatch function guarantees along every
run of the event loop: the authentication gate, and the limit on failed attempts. -/
namespace Tellstone.Frontend
open ByteStream EventLoop

def Kind.gated : Kind → Bool
  | data | policy => true
  | auth | other => false

/-- `s'` differs from `s` in its buffers only. -/
structure ConnState.Rebuffered (s s' : ConnState) : Prop where
  authenticated : s'.authenticated = s.authenticated
  closeAfterReply : s'.closeAfterReply = s.closeAfterReply
  authPending : s'.authPending = s.authPending
  authFails : s'.authFails = s.authFails

theorem ConnState.Rebuffered.refl (s : ConnState) : s.Rebuffered s := ⟨rfl, rfl, rfl, rfl⟩

theorem ConnState.Rebuffered.trans {s t u : ConnState} (first : s.Rebuffered t)
    (second : t.Rebuffered u) : s.Rebuffered u :=
  ⟨second.authenticated.trans first.authenticated,
    second.closeAfterReply.trans first.closeAfterReply,
    second.authPending.trans first.authPending, second.authFails.trans first.authFails⟩

theorem ConnState.receive_rebuffered (s : ConnState) (a : Arrival) :
    s.Rebuffered (s.receive a) := by
  unfold ConnState.receive
  split <;> exact ⟨rfl, rfl, rfl, rfl⟩

theorem ConnState.send_rebuffered (s : ConnState) (out : Bytes) : s.Rebuffered (s.send out) :=
  ⟨rfl, rfl, rfl, rfl⟩

theorem ConnState.discard_rebuffered (s : ConnState) (n : Nat) : s.Rebuffered (s.discard n) := by
  unfold ConnState.discard
  split <;> exact ⟨rfl, rfl, rfl, rfl⟩

theorem ConnState.flushed_rebuffered (s : ConnState) (out : Bytes) (n : Nat) :
    s.Rebuffered ((s.send out).discard n) :=
  (s.send_rebuffered out).trans ((s.send out).discard_rebuffered n)

/-- Rejections do not exceed the limit without the connection being told to close. -/
def ConnState.Limited (s : ConnState) : Prop :=
  maxAuthFails ≤ s.authFails → s.closeAfterReply = true

theorem ConnState.Rebuffered.limited {s s' : ConnState} (same : s.Rebuffered s')
    (limited : s.Limited) : s'.Limited := by
  unfold ConnState.Limited
  rw [same.authFails, same.closeAfterReply]
  exact limited

/-- The connection is neither to be closed nor to be upgraded. -/
structure ConnState.Open (s : ConnState) : Prop where
  stays : s.closeAfterReply = false
  plain : s.upgradeTLS = false

def Recorded (policy policy' : Rbac.Store) : Prop :=
  policy' = policy ∨ ∃ now username remoteAddr reason,
    policy' = policy.logAuthFailure now username remoteAddr reason

section
variable {σ φ : Type}

/-- What a dispatch may do to `st` and `core`. `passwordless` says that the command is an AUTH
without password, and `verifies` what jobs it may submit. -/
structure Dispatched.Sound (passwordless : Prop) (verifies : AuthJob → Prop) (st : ConnState)
    (core : Core σ) (d : Dispatched σ) : Prop where
  pending : st.authPending = false → d.state.authPending = d.job.isSome
  limit : st.Limited → d.state.Limited
  tls : d.state.tls = st.tls
  submits : d.job.isSome = true → st.Open → d.state.Open
  upgrades : st.Open → d.state.upgradeTLS = true → d.state.closeAfterReply = false
  gate : d.kind.gated = true → st.authenticated = true
  leaves : d.kind.gated = false → d.core.store = core.store ∧ Recorded core.policy d.core.policy
  raised : st.authenticated = false → d.state.authenticated = true → d.kind = .auth ∧ passwordless
  job : ∀ job, d.job = some job → d.kind = .auth ∧ verifies job

namespace Dispatched.Sound

variable {passwordless : Prop} {verifies : AuthJob → Prop} {st : ConnState} {core : Core σ}
  {d : Dispatched σ}

theorem of_plain (same : st.Rebuffered d.state) (tls : d.state.tls = st.tls)
    (noJob : d.job = none) (gate : d.kind.gated = true → st.authenticated = true)
    (leaves : d.kind.gated = false → d.core = core) : d.Sound passwordless verifies st core := by
  constructor
  · intro idle
    rw [same.authPending, idle, noJob]
    rfl
  · exact same.limited
  · exact tls
  · intro submitted
    rw [noJob] at submitted
    cases submitted
  · intro unmarked _
    exact same.closeAfterReply.trans unmarked.stays
  · exact gate
  · intro harmless
    rw [leaves harmless]
    exact ⟨rfl, Or.inl rfl⟩
  · intro down up
    rw [same.authenticated, down] at up
    cases up
  · intro job submitted
    rw [noJob] at submitted
    cases submitted

theorem unchanged {out : Bytes} {kind : Kind} (harmless : kind.gated = false) :
    Sound passwordless verifies st core ⟨core, st, out, kind, none⟩ := by
  refine of_plain (.refl st) rfl rfl ?_ (fun _ => rfl)
  intro reached
  exact absurd (harmless.symm.trans reached) Bool.false_ne_true

theorem rejected (access : Access) (m : Moment σ) (username reason out : Bytes) :
    (Dispatched.rejected access m st core username reason out).Sound passwordless verifies st core := by
  constructor
  · intro idle
    exact idle
  · intro _ reached
    simp only [Dispatched.rejected, authFailed, Bool.or_eq_true, decide_eq_true_eq] at reached ⊢
    exact Or.inr reached
  · rfl
  · exact nofun
  · intro unmarked upgraded
    exact absurd (unmarked.plain.symm.trans upgraded) Bool.false_ne_true
  · intro reached
    cases reached
  · intro _
    cases access with
    | policy oauth => exact ⟨rfl, Or.inr ⟨_, _, _, _, rfl⟩⟩
    | unrestricted => exact ⟨rfl, Or.inl rfl⟩
    | password hash => exact ⟨rfl, Or.inl rfl⟩
  · intro down up
    exact absurd (down.symm.trans up) Bool.false_ne_true
  · intro job submitted
    cases submitted

theorem submit (m : Moment σ) {job : AuthJob} (out : Bytes) (verified : verifies job) :
    (Dispatched.submit m st core job out).Sound passwordless verifies st core := by
  unfold Dispatched.submit
  split
  · exact unchanged rfl
  · constructor
    · intro _
      rfl
    · intro limited
      exact limited
    · rfl
    · intro _ unmarked
      exact ⟨unmarked.stays, unmarked.plain⟩
    · intro unmarked _
      exact unmarked.stays
    · intro reached
      cases reached
    · intro _
      exact ⟨rfl, Or.inl rfl⟩
    · intro down up
      exact absurd (down.symm.trans up) Bool.false_ne_true
    · rintro job' ⟨⟩
      exact ⟨rfl, verified⟩

end Dispatched.Sound

variable {dispatch : Moment σ → ConnState → Core σ → φ → Dispatched σ}

/-- Commands one after another while no verification is pending, none after one that closes or
upgrades the connection. -/
inductive Steps (dispatch : Moment σ → ConnState → Core σ → φ → Dispatched σ) (p : Pass σ φ) :
    Pass σ φ → Prop where
  | refl : Steps dispatch p p
  | buffers {q : Pass σ φ} (steps : Steps dispatch p q) (st : ConnState)
      (same : q.state.Rebuffered st) : Steps dispatch p { q with state := st }
  | command {q : Pass σ φ} (steps : Steps dispatch p q) (m : Moment σ) (frame : φ)
      (idle : q.state.authPending = false)
      (goesOn : p.state.Open → q.state.Open) :
      Steps dispatch p (q.take (m.others q.core) frame
        (dispatch m q.state (m.others q.core) frame))

/-- From `p` to `r` by commands, as open as before unless the call ends the connection. -/
structure Leads (dispatch : Moment σ → ConnState → Core σ → φ → Dispatched σ) (p : Pass σ φ)
    (r : Pass σ φ × Action) : Prop where
  steps : Steps dispatch p r.1
  stays : r.2 = .none → p.state.Open → r.1.state.Open

theorem Leads.refl (p : Pass σ φ) : Leads dispatch p (p, .none) := ⟨.refl, fun _ => id⟩

theorem Leads.withTls {p q : Pass σ φ} (leads : Leads dispatch p (q, .none)) (t : Tls) :
    Leads dispatch p (q.withTls t, .none) := by
  refine ⟨leads.steps.buffers _ ⟨rfl, rfl, rfl, rfl⟩, fun _ ready => ?_⟩
  obtain ⟨stays, plain⟩ := leads.stays rfl ready
  exact ⟨stays, plain⟩

theorem Pass.turn_keeps {K : Pass σ φ × Action → Prop} {p : Pass σ φ} {t : Tls}
    {serve : Pass σ φ → Tls → Pass σ φ × Action} {goOn : Pass σ φ → Pass σ φ × Action}
    (filled : K (p.withTls t.fill.1, .none)) (serves : K (serve (p.withTls t.fill.1) t.fill.1))
    (closes : ∀ q, K (q, .none) → K (q, .close)) (goesOn : ∀ q, K (q, .none) → K (goOn q)) :
    K (p.turn t serve goOn) := by
  have served : K (if t.fill.2.1 then serve (p.withTls t.fill.1) t.fill.1
      else (p.withTls t.fill.1, .none)) := by
    split
    · exact serves
    · exact filled
  unfold Pass.turn
  simp only
  generalize (if t.fill.2.1 then serve (p.withTls t.fill.1) t.fill.1
      else (p.withTls t.fill.1, .none)) = r at served ⊢
  split
  · exact served
  rename_i unclosed
  have fine : K (r.1, .none) := by
    rw [← not_not.mp unclosed]
    exact served
  split
  · exact fine
  · exact closes _ fine
  · exact goesOn _ fine

theorem Leads.turn {p q : Pass σ φ} (leads : Leads dispatch p (q, .none)) (t : Tls)
    {serve : Pass σ φ → Tls → Pass σ φ × Action} {goOn : Pass σ φ → Pass σ φ × Action}
    (serves : ∀ q t, Leads dispatch p (q, .none) → Leads dispatch p (serve q t))
    (goesOn : ∀ q, Leads dispatch p (q, .none) → Leads dispatch p (goOn q)) :
    Leads dispatch p (q.turn t serve goOn) := by
  refine Pass.turn_keeps (leads.withTls _) (serves _ _ (leads.withTls _)) ?_ goesOn
  intro q next
  exact ⟨next.steps, fun none => by cases none⟩

theorem Pass.turn_halts {p : Pass σ φ} {t : Tls} {serve : Pass σ φ → Tls → Pass σ φ × Action}
    {goOn : Pass σ φ → Pass σ φ × Action} (halts : (p.turn t serve goOn).2 = .halt) :
    p.turn t serve goOn = serve (p.withTls t.fill.1) t.fill.1 ∨
    t.fill.2.2 = none ∧
      (t.fill.2.1 = true ∧
          p.turn t serve goOn = goOn (serve (p.withTls t.fill.1) t.fill.1).1 ∨
        t.fill.2.1 = false ∧ p.turn t serve goOn = goOn (p.withTls t.fill.1)) := by
  unfold Pass.turn at halts ⊢
  simp only at halts ⊢
  by_cases gotSome : t.fill.2.1 = true
  · simp only [if_pos gotSome] at halts ⊢
    split at halts
    · rename_i stopped
      exact Or.inl (if_pos stopped)
    · rename_i unclosed
      rw [if_neg unclosed]
      split at halts
      · cases halts
      · cases halts
      · rename_i fine
        exact Or.inr ⟨fine, Or.inl ⟨gotSome, rfl⟩⟩
  · simp only [if_neg gotSome] at halts ⊢
    rw [if_neg (by simp)] at halts ⊢
    split at halts
    · cases halts
    · cases halts
    · rename_i fine
      exact Or.inr ⟨fine, Or.inr ⟨eq_false_of_ne_true gotSome, rfl⟩⟩

theorem Pass.jobs_take (q : Pass σ φ) (core : Core σ) (frame : φ) (d : Dispatched σ) :
    ((q.take core frame d).log.filterMap Note.job?).length =
      (q.log.filterMap Note.job?).length + d.job.isSome.toNat := by
  simp only [take, List.filterMap_append, List.length_append]
  cases d.job <;> rfl

def Proper (verifies : Core σ → φ → AuthJob → Prop)
    (log : List (Note ConnState (Entry σ φ) AuthJob)) : Note ConnState (Entry σ φ) AuthJob → Prop
  | .served s e =>
    s.authPending = false ∧ (e.kind.gated = true → s.authenticated = true) ∧
      (e.kind.gated = false →
        e.after.store = e.before.store ∧ Recorded e.before.policy e.after.policy)
  | .submitted s job =>
    ∃ e, .served s e ∈ log ∧ e.kind = .auth ∧ verifies e.before e.frame job

section
variable {passwordless : Core σ → φ → Prop} {verifies : Core σ → φ → AuthJob → Prop}
  {p q : Pass σ φ}
  (sound : ∀ m st core frame, (dispatch m st core frame).Sound (passwordless core frame)
    (verifies core frame) st core)
include sound

theorem Steps.proper (steps : Steps dispatch p q) (fresh : p.log = []) :
    ∀ n ∈ q.log, Proper verifies q.log n := by
  induction steps with
  | refl =>
    intro n mem
    rw [fresh] at mem
    cases mem
  | buffers steps st same ih => exact ih
  | @command q steps m frame idle goesOn ih =>
    have spec := sound m q.state (m.others q.core) frame
    intro n mem
    rcases List.mem_append.mp mem with early | late
    · have before := ih n early
      cases n with
      | served s e => exact before
      | submitted s job =>
        obtain ⟨e, served, asked⟩ := before
        exact ⟨e, List.mem_append_left _ served, asked⟩
    · rcases List.mem_cons.mp late with rfl | handed
      · exact ⟨idle, spec.gate, spec.leaves⟩
      · obtain ⟨job, submitted, rfl⟩ := List.mem_map.mp handed
        have asked := spec.job job (Option.mem_toList.mp submitted)
        exact ⟨_, List.mem_append_right _ List.mem_cons_self, asked⟩

theorem Steps.jobs (steps : Steps dispatch p q) :
    (q.log.filterMap Note.job?).length + p.state.authPending.toNat =
      (p.log.filterMap Note.job?).length + q.state.authPending.toNat := by
  induction steps with
  | refl => rfl
  | buffers steps st same ih => rw [same.authPending, ih]
  | @command q steps m frame idle goesOn ih =>
    have spec := sound m q.state (m.others q.core) frame
    have pends : (q.take (m.others q.core) frame
        (dispatch m q.state (m.others q.core) frame)).state.authPending =
          (dispatch m q.state (m.others q.core) frame).job.isSome := spec.pending idle
    rw [idle, Bool.toNat_false] at ih
    rw [pends, Pass.jobs_take]
    omega

theorem Steps.raised (steps : Steps dispatch p q) (down : p.state.authenticated = false)
    (up : q.state.authenticated = true) :
    ∃ s e, .served s e ∈ q.log ∧ e.kind = .auth ∧ passwordless e.before e.frame := by
  induction steps with
  | refl => exact absurd (down.symm.trans up) Bool.false_ne_true
  | buffers steps st same ih =>
    rw [same.authenticated] at up
    exact ih up
  | @command q steps m frame idle goesOn ih =>
    have spec := sound m q.state (m.others q.core) frame
    cases before : q.state.authenticated with
    | true =>
      obtain ⟨s, e, served, granted⟩ := ih before
      exact ⟨s, e, List.mem_append_left _ served, granted⟩
    | false =>
      exact ⟨q.state, _, List.mem_append_right _ List.mem_cons_self, spec.raised before up⟩

theorem Steps.limited (steps : Steps dispatch p q) (fresh : p.log = [])
    (ready : p.state.Open) (limited : p.state.Limited) :
    (∀ n ∈ q.log, n.state.authFails < maxAuthFails) ∧ q.state.Limited := by
  induction steps with
  | refl =>
    refine ⟨?_, limited⟩
    intro n mem
    rw [fresh] at mem
    cases mem
  | buffers steps st same ih => exact ⟨ih.1, same.limited ih.2⟩
  | @command q steps m frame idle goesOn ih =>
    obtain ⟨below, before⟩ := ih
    have here : q.state.authFails < maxAuthFails := by
      by_contra reached
      have closing := before (Nat.le_of_not_lt reached)
      rw [(goesOn ready).stays] at closing
      cases closing
    refine ⟨?_, (sound m q.state (m.others q.core) frame).limit before⟩
    intro n mem
    rcases List.mem_append.mp mem with early | late
    · exact below n early
    · rcases List.mem_cons.mp late with rfl | handed
      · exact here
      · obtain ⟨job, -, rfl⟩ := List.mem_map.mp handed
        exact here

end

/-- A front end that only dispatches. `opensUp` says when a connection starts out authenticated. -/
structure Guarded (f : FrontEnd σ φ) (opensUp : Core σ → Prop) (passwordless : Core σ → φ → Prop)
    (verifies : Core σ → φ → AuthJob → Prop)
    (dispatch : Moment σ → ConnState → Core σ → φ → Dispatched σ) : Prop where
  fresh : ∀ io core, (f.onOpen io core).authPending = false ∧ (f.onOpen io core).authFails = 0 ∧
    (f.onOpen io core).Open
  opened : ∀ io core, (f.onOpen io core).authenticated = true → opensUp core
  traffic : ∀ io core st, ∃ r, Leads dispatch (Pass.start core st) r ∧
    f.onTraffic io core st = r.1.ends r.2
  sound : ∀ m st core frame, (dispatch m st core frame).Sound (passwordless core frame)
    (verifies core frame) st core

abbrev Observed (σ φ : Type) := Nat × Obs ConnState (Entry σ φ) AuthJob Verdict

/-- Commands reached the store or the policy only on authenticated connections without a pending
verification. The flag is raised only at open, by an AUTH without password, or by a verified one. -/
structure GateHolds (f : FrontEnd σ φ) (opensUp : Core σ → Prop)
    (passwordless : Core σ → φ → Prop) (verifies : Core σ → φ → AuthJob → Prop)
    (w : World (Core σ) ConnState AuthJob Verdict) (trace : List (Observed σ φ)) : Prop where
  gate : ∀ id s e, (id, .did (.served s e)) ∈ trace → e.kind.gated = true →
    s.authenticated = true ∧ s.authPending = false
  untouched : ∀ id s e, (id, .did (.served s e)) ∈ trace → e.kind.gated = false →
    e.after.store = e.before.store ∧ Recorded e.before.policy e.after.policy
  raised : ∀ ev id, w.flagged ConnState.authenticated id = false →
    (w.step f.listener ev).1.flagged ConnState.authenticated id = true →
      (id = w.next ∧ opensUp w.backend) ∨
      (∃ s e, (id, .did (.served s e)) ∈ (w.step f.listener ev).2 ∧ e.kind = .auth ∧
        passwordless e.before e.frame) ∨
      ∃ s job v, (id, .finished s job v) ∈ (w.step f.listener ev).2 ∧ v.success = true ∧
        (∃ claims, ∃ core : Core σ, v = authWorker f.compare claims core job) ∧
        ∃ s' e, (id, .did (.served s' e)) ∈ trace ∧ e.kind = .auth ∧
          verifies e.before e.frame job
  alone : ∀ id, w.outstanding id ≤ 1
  pends : ∀ id c, w.conns id = some c → w.outstanding id = c.state.authPending.toNat

theorem callback_state (access : Access) (reply : Bool → Bytes) (io : Io σ) (core : Core σ)
    (st : ConnState) (job : AuthJob) (v : Verdict) :
    (settleAuth access io.callback.now st (io.callback.others core) job v).1.Rebuffered
        (callback access reply io core st job v).state ∧
      (callback access reply io core st job v).state.upgradeTLS =
        (settleAuth access io.callback.now st (io.callback.others core) job v).1.upgradeTLS := by
  unfold callback
  simp only
  split
  · exact ⟨.refl _, rfl⟩
  · exact ⟨ConnState.send_rebuffered _ _, rfl⟩

theorem callback_closes (access : Access) (reply : Bool → Bytes) (io : Io σ) (core : Core σ)
    (st : ConnState) (job : AuthJob) (v : Verdict)
    (closing : (callback access reply io core st job v).state.closeAfterReply = true) :
    (callback access reply io core st job v).closes = true := by
  unfold callback at closing ⊢
  simp only at closing ⊢
  split
  · rfl
  · rename_i written
    rw [if_neg written] at closing
    exact closing

def Grants (passwordless : Core σ → φ → Prop) : Obs ConnState (Entry σ φ) AuthJob Verdict → Prop
  | .did (.served _ e) => e.kind = .auth ∧ passwordless e.before e.frame
  | .did (.submitted _ _) => False
  | .finished _ _ v => v.success = true

namespace Guarded

variable {f : FrontEnd σ φ} {opensUp : Core σ → Prop} {passwordless : Core σ → φ → Prop}
  {verifies : Core σ → φ → AuthJob → Prop} {core : Core σ}
  {events : List (Event (Io σ) (Option Rbac.Claims) (Core σ))}

theorem proper (guarded : Guarded f opensUp passwordless verifies dispatch) {id : Nat}
    {n : Note ConnState (Entry σ φ) AuthJob}
    (mem : (id, .did n) ∈ ((World.start core).run f.listener events).2) :
    ∃ log, Proper verifies log n ∧
      ∀ n' ∈ log, (id, .did n') ∈ ((World.start core).run f.listener events).2 := by
  obtain ⟨io, b, s, logged, all⟩ := World.run_did mem
  obtain ⟨⟨p, action⟩, ⟨steps, -⟩, same⟩ := guarded.traffic io b s
  have call : (f.listener.traffic io b s).log = p.log := congrArg Served.log same
  rw [call] at logged all
  exact ⟨p.log, steps.proper guarded.sound rfl n logged, all⟩

theorem oneAtATime (guarded : Guarded f opensUp passwordless verifies dispatch) :
    f.listener.OneAtATime ConnState.authPending := by
  constructor
  · intro io core
    exact (guarded.fresh io core).1
  · intro io st
    exact (st.receive_rebuffered io.arrival).authPending
  · intro io core st
    obtain ⟨⟨p, action⟩, ⟨steps, -⟩, same⟩ := guarded.traffic io core st
    have served : f.listener.traffic io core st = p.ends action := same
    have count := steps.jobs guarded.sound
    have atMost := Bool.toNat_le p.state.authPending
    simp only [served, Served.jobs, Pass.ends]
    simp only [Pass.start, List.filterMap_nil, List.length_nil] at count
    constructor
    · omega
    · intro _
      omega
  · intro io core st job v
    have settled : (settleAuth f.access io.callback.now st (io.callback.others core) job
        v).1.authPending = false := by
      unfold settleAuth
      simp only
      split <;> rfl
    exact (callback_state f.access f.reply io core st job v).1.authPending.trans settled

theorem raisedBy (guarded : Guarded f opensUp passwordless verifies dispatch) :
    f.listener.RaisedBy ConnState.authenticated (Grants passwordless) := by
  constructor
  · intro io st
    exact (st.receive_rebuffered io.arrival).authenticated
  · intro io core st down up
    obtain ⟨⟨p, action⟩, ⟨steps, -⟩, same⟩ := guarded.traffic io core st
    have served : f.listener.traffic io core st = p.ends action := same
    rw [served] at up ⊢
    obtain ⟨s, e, logged, granted⟩ := steps.raised guarded.sound down up
    exact ⟨.served s e, logged, granted⟩
  · intro io core st job v down up
    have settled := (callback_state f.access f.reply io core st job v).1.authenticated
    have raised := settled.symm.trans up
    unfold settleAuth at raised
    simp only at raised
    split at raised
    · rename_i success
      exact success
    · exact absurd (down.symm.trans raised) Bool.false_ne_true

theorem gateHolds (guarded : Guarded f opensUp passwordless verifies dispatch) (core : Core σ)
    (events : List (Event (Io σ) (Option Rbac.Claims) (Core σ))) :
    GateHolds f opensUp passwordless verifies ((World.start core).run f.listener events).1
      ((World.start core).run f.listener events).2 := by
  have tracked := World.run_tracked guarded.oneAtATime
    (World.tracked_start ConnState.authPending core) events
  constructor
  · intro id s e mem reached
    obtain ⟨log, ⟨idle, gate, -⟩, -⟩ := guarded.proper mem
    exact ⟨gate reached, idle⟩
  · intro id s e mem harmless
    obtain ⟨log, ⟨-, -, leaves⟩, -⟩ := guarded.proper mem
    exact leaves harmless
  · intro ev id down up
    have move := World.step_move f.listener ((World.start core).run f.listener events).1 ev
    rcases move.raised guarded.raisedBy down up with ⟨new, io, opened⟩ | ⟨o, logged, granted⟩
    · exact Or.inl ⟨new, guarded.opened io _ opened⟩
    · cases o with
      | did n =>
        cases n with
        | served s e => exact Or.inr (Or.inl ⟨s, e, logged, granted⟩)
        | submitted s job => exact granted.elim
      | finished s job v =>
        have sourced := World.run_sourced (World.sourced_start f.listener core) events
        obtain ⟨⟨s', submitted⟩, claims, core', verified⟩ :=
          (move.sourced sourced).2 id s job v logged
        obtain ⟨log, ⟨e, served, asked⟩, all⟩ := guarded.proper submitted
        exact Or.inr (Or.inr ⟨s, job, v, logged, granted, ⟨claims, core', verified⟩,
          s', e, all _ served, asked⟩)
  · exact tracked.alone
  · exact tracked.pends

theorem keeps (guarded : Guarded f opensUp passwordless verifies dispatch) :
    f.listener.Keeps (fun st => st.Limited ∧ st.upgradeTLS = false) ConnState.closeAfterReply
      (fun n => n.state.authFails < maxAuthFails) := by
  constructor
  · intro io core
    obtain ⟨-, none_failed, stays, plain⟩ := guarded.fresh io core
    refine ⟨⟨fun reached => ?_, plain⟩, stays⟩
    have failed : maxAuthFails ≤ (f.onOpen io core).authFails := reached
    rw [none_failed] at failed
    cases failed
  · intro io st inv
    have same := st.receive_rebuffered io.arrival
    refine ⟨⟨same.limited inv.1, ?_⟩, same.closeAfterReply⟩
    have plain : (st.receive io.arrival).upgradeTLS = st.upgradeTLS := by
      unfold ConnState.receive
      split <;> rfl
    exact plain.trans inv.2
  · intro io core st inv ready
    obtain ⟨⟨p, action⟩, ⟨steps, unmarked⟩, same⟩ := guarded.traffic io core st
    have served : f.listener.traffic io core st = p.ends action := same
    obtain ⟨below, after⟩ := steps.limited guarded.sound rfl ⟨ready, inv.2⟩ inv.1
    rw [served]
    refine ⟨below, fun none => ?_⟩
    obtain ⟨stays, plain⟩ := unmarked none ⟨ready, inv.2⟩
    exact ⟨⟨after, plain⟩, stays⟩
  · intro io core st job v inv ready
    have settled : (settleAuth f.access io.callback.now st (io.callback.others core) job v).1.Limited ∧
        (settleAuth f.access io.callback.now st (io.callback.others core) job v).1.upgradeTLS =
          false := by
      unfold settleAuth
      simp only
      split
      · exact inv
      · refine ⟨fun reached => ?_, inv.2⟩
        simp only [authFailed, Bool.or_eq_true, decide_eq_true_eq] at reached ⊢
        exact Or.inr reached
    obtain ⟨same, plain⟩ := callback_state f.access f.reply io core st job v
    exact ⟨⟨same.limited settled.1, plain.trans settled.2⟩,
      callback_closes f.access f.reply io core st job v⟩

theorem limited (guarded : Guarded f opensUp passwordless verifies dispatch)
    (prompt : (World.start core).Prompt f.listener events)
    {id : Nat} {n : Note ConnState (Entry σ φ) AuthJob}
    (mem : (id, .did n) ∈ ((World.start core).run f.listener events).2) :
    n.state.authFails < maxAuthFails :=
  World.run_keeps guarded.keeps (World.kept_start _ _ core) prompt mem

end Guarded

end

end Tellstone.Frontend
