import Tellstone.OAuth.Refresh

/-! Whole runs of the throttled refresh. -/
namespace Tellstone.OAuth.Refresh
open Interleaving

variable {ι ε : Type}

section
variable {s s' : State ι ε} {l : Option ι} {i j a : ι} {c : Nat}

def Recorded (i : ι) (c : Nat) (s : State ι ε) : Prop :=
  c ≤ s.now ∧ (s.pc i = .fetched ∨ s.pc i = .stamping ∨ ∃ r, s.refreshAt = some r ∧ c ≤ r)

def Ended (s : State ι ε) (a : ι) : Prop := (s.pc a).answered = true ∨ s.done a = true

theorem Inv.leading (inv : Inv s) (flying : (s.pc i).flying = true)
    (here : s.pc j = .leading) : s.pc i = .leading := by
  have other : (s.pc j).flying = true := by rw [here]; rfl
  rw [inv.flight.unique flying other]
  exact here

theorem Inv.spacing (inv : Inv s) (recorded : Recorded i c s)
    (here : s.pc j = .leading) : c + minRefreshInterval ≤ s.now := by
  obtain ⟨_, fetched | stamping | ⟨r, set, after⟩⟩ := recorded
  · cases fetched.symm.trans (inv.leading (by rw [fetched]; rfl) here)
  · cases stamping.symm.trans (inv.leading (by rw [stamping]; rfl) here)
  · have late := inv.spaced j here
    simp only [set, tooEarly, decide_eq_false_iff_not] at late
    omega

variable [DecidableEq ι]

theorem Step.recorded (step : Step l s s') (recorded : Recorded i c s) :
    Recorded i c s' := by
  obtain ⟨le, place⟩ := recorded
  refine ⟨le.trans step.now, ?_⟩
  obtain fetched | stamping | ⟨r, set, after⟩ := place
  · obtain same | moves := step.moves i
    · exact Or.inl (same.trans fetched)
    · rw [fetched] at moves
      generalize next : s'.pc i = q at moves
      cases moves with
      | lockAgain => exact Or.inr (Or.inl rfl)
  · obtain same | moves := step.moves i
    · exact Or.inr (Or.inl (same.trans stamping))
    · rw [stamping] at moves
      generalize next : s'.pc i = q at moves
      cases moves with
      | stamp set => exact Or.inr (Or.inr ⟨s.now, set, le⟩)
  · obtain same | ⟨set, _⟩ := step.refreshAt
    · exact Or.inr (Or.inr ⟨r, same.trans set, after⟩)
    · exact Or.inr (Or.inr ⟨s.now, set, le⟩)

theorem Step.ended (step : Step l s s') (ended : Ended s' a) :
    Ended s a ∨ s.pc a = .fetching ∧ s'.pc a = .fetched := by
  have back (answered : (s'.pc a).answered = true) :
      Ended s a ∨ s.pc a = .fetching ∧ s'.pc a = .fetched := by
    obtain same | moves := step.moves a
    · exact Or.inl (Or.inl (same ▸ answered))
    · exact (moves.answered answered).imp Or.inl id
  obtain answered | closed := ended
  · exact back answered
  · obtain before | here := step.closes closed
    · exact Or.inl (Or.inr before)
    · exact back (by rw [here]; rfl)

theorem enabled_of_locked (here : s.pc i = .locked) : Enabled Step i s := by
  cases flight : s.inFlight with
  | some a => exact ⟨_, .join here flight⟩
  | none =>
    cases early : tooEarly s.refreshAt s.now with
    | true => exact ⟨_, .cool here flight early⟩
    | false => exact ⟨_, .lead here flight early⟩

theorem enabled_of_critical (critical : (s.pc i).critical = true) : Enabled Step i s := by
  cases here : s.pc i with
  | locked => exact enabled_of_locked here
  | joining => exact ⟨_, .unlockJoin here⟩
  | cooling => exact ⟨_, .unlockCool here⟩
  | leading => exact ⟨_, .unlockLead here⟩
  | stamping => exact ⟨_, .stamp here⟩
  | clearing => exact ⟨_, .clear here⟩
  | closing => exact ⟨_, .close here⟩
  | unlocking => exact ⟨_, .unlockReturn here⟩
  | _ => rw [here] at critical; cases critical

theorem standing (free : s.refreshMu = none) (still : ¬ Enabled Step i s) :
    s.pc i = .idle ∨ (∃ a, s.pc i = .waiting a) ∨ ∃ out, s.pc i = .returned out := by
  cases here : s.pc i with
  | idle => exact Or.inl rfl
  | waiting a => exact Or.inr (Or.inl ⟨a, rfl⟩)
  | returned out => exact Or.inr (Or.inr ⟨out, rfl⟩)
  | start => exact absurd ⟨_, .lock here free⟩ still
  | fetched => exact absurd ⟨_, .lockAgain here free⟩ still
  | fetching => exact absurd ⟨_, .refreshJWKS none here⟩ still
  | _ => exact absurd (enabled_of_critical (by rw [here]; rfl)) still

end

variable [DecidableEq ι]

abbrev Interleaved (ι ε : Type) [DecidableEq ι] : Type :=
  Run (Step : Option ι → State ι ε → State ι ε → Prop)

variable (run : Interleaved ι ε)

def Starts (t : Nat) (i : ι) : Prop :=
  (run.state t).pc i = .leading ∧ (run.state (t + 1)).pc i = .fetching

def Completes (t : Nat) (i : ι) : Prop :=
  (run.state t).pc i = .fetching ∧ (run.state (t + 1)).pc i = .fetched

variable {run}

theorem Completes.recorded {t u : Nat} {i : ι} (completes : Completes run t i) (later : t < u) :
    Recorded i (run.state t).now (run.state u) :=
  Run.always_from ⟨(run.steps t).now, Or.inl completes.2⟩ (fun _ _ _ step => step.recorded) later

/-- A caller in the attempt of `a` still is, has left with its context done, or has returned the
result. -/
def Follows (run : Interleaved ι ε) (i a : ι) (u : Nat) : Prop :=
  ((run.state u).pc i).attempt i = some a ∨
    ∃ out, (run.state u).pc i = .returned out ∧ ((run.state u).cancelled i = true ∨
      ∃ v, v < u ∧ Completes run v a ∧ out = .attempt ((run.state (v + 1)).err a))

theorem eventually_still {i : ι} (fair : run.Fair i) :
    ∃ t, ∀ u, t ≤ u → ¬ Enabled Step i (run.state u) :=
  Run.eventually_disabled fair (fun s => (s.pc i).rank) (fun _ _ _ step => step.rank_le i)
    fun _ _ step => step.rank_lt

theorem waiting_stays {i a : ι} {t u : Nat} (here : (run.state t).pc i = .waiting a)
    (still : ∀ w, t ≤ w → ¬ Enabled Step i (run.state w)) (later : t ≤ u) :
    (run.state u).pc i = .waiting a := by
  induction later with
  | refl => exact here
  | @step u later ih =>
    obtain same | moves := (run.steps u).moves i
    · exact same.trans ih
    · rw [ih] at moves
      generalize (run.state (u + 1)).pc i = q at moves
      cases moves with
      | receive closed => exact absurd ⟨_, .receive ih closed⟩ (still u later)
      | abandon ended => exact absurd ⟨_, .abandon ih ended⟩ (still u later)

theorem not_idle_from {i : ι} {t u : Nat} (called : (run.state t).pc i ≠ .idle) (later : t ≤ u) :
    (run.state u).pc i ≠ .idle := by
  induction later with
  | refl => exact called
  | @step u _ ih =>
    obtain same | moves := (run.steps u).moves i
    · rw [same]
      exact ih
    · exact moves.not_idle

section
variable {now : Nat} (start : run.state 0 = State.initial ι ε now)

include start

theorem inv_always (t : Nat) : Inv (run.state t) :=
  Run.always_from (start ▸ Inv.initial now) (fun _ _ _ step inv => inv.step step) (Nat.zero_le t)

theorem completed {u : Nat} {a : ι} (ended : Ended (run.state u) a) :
    ∃ v, v < u ∧ Completes run v a ∧ (run.state u).err a = (run.state (v + 1)).err a := by
  induction u with
  | zero =>
    rw [start] at ended
    obtain answered | closed := ended
    · cases answered
    · cases closed
  | succ u ih =>
    obtain same | completes := (run.steps u).err a
    · obtain before | completes := (run.steps u).ended ended
      · obtain ⟨v, earlier, completes, err⟩ := ih before
        exact ⟨v, earlier.trans (Nat.lt_succ_self u), completes, same.trans err⟩
      · exact ⟨u, Nat.lt_succ_self u, completes, rfl⟩
    · exact ⟨u, Nat.lt_succ_self u, completes, rfl⟩

theorem follows_ended {u : Nat} {i a : ι} (ended : Ended (run.state u) a)
    (here : (run.state (u + 1)).pc i = .returned (.attempt ((run.state u).err a))) :
    Follows run i a (u + 1) := by
  obtain ⟨v, earlier, completes, err⟩ := completed start ended
  exact Or.inr ⟨_, here, Or.inr ⟨v, earlier.trans (Nat.lt_succ_self u), completes, by rw [err]⟩⟩

theorem follows_succ {u : Nat} {i a : ι} (follows : Follows run i a u) :
    Follows run i a (u + 1) := by
  have step := run.steps u
  obtain part | ⟨out, here, why⟩ := follows
  · obtain same | moves := step.moves i
    · exact Or.inl (by rw [same]; exact part)
    · generalize before : (run.state u).pc i = p at part moves
      generalize next : (run.state (u + 1)).pc i = q at moves
      cases moves with
      | unlockJoin | unlockLead | refreshJWKS | lockAgain | stamp | clear | close =>
        exact Or.inl (by rw [next]; exact part)
      | receive closed =>
        cases part
        exact follows_ended start (Or.inr closed) next
      | abandon ended => exact Or.inr ⟨_, next, Or.inl (step.cancelled ended)⟩
      | unlockReturn =>
        cases part
        exact follows_ended start (Or.inl (by rw [before]; rfl)) next
      | _ => cases part
  · obtain same | moves := step.moves i
    · refine Or.inr ⟨out, same.trans here, ?_⟩
      obtain ended | ⟨v, earlier, result⟩ := why
      · exact Or.inl (step.cancelled ended)
      · exact Or.inr ⟨v, earlier.trans (Nat.lt_succ_self u), result⟩
    · rw [here] at moves
      cases moves.rank.not_ge (Nat.zero_le _)

theorem follows_from {t u : Nat} {i a : ι} (part : ((run.state t).pc i).attempt i = some a)
    (later : t ≤ u) : Follows run i a u := by
  induction later with
  | refl => exact Or.inl part
  | step _ ih => exact follows_succ start ih

variable (fair : ∀ i, run.Fair i)

include fair

theorem eventually_free (t : Nat) : ∃ u, t ≤ u ∧ (run.state u).refreshMu = none := by
  by_contra never
  push Not at never
  obtain ⟨holder, holds⟩ := Option.ne_none_iff_exists'.mp (never t (Nat.le_refl t))
  have keeps (u : Nat) (later : t ≤ u) : (run.state u).refreshMu = some holder := by
    induction later with
    | refl => exact holds
    | @step u later ih =>
      obtain free | free | same := (run.steps u).refreshMu
      · exact absurd free (never u later)
      · exact absurd free (never (u + 1) (Nat.le_succ_of_le later))
      · exact same.trans ih
  obtain ⟨stop, still⟩ := eventually_still (fair holder)
  have held := keeps (max t stop) (Nat.le_max_left t stop)
  have critical := ((inv_always start (max t stop)).mutex holder).mpr held
  exact still _ (Nat.le_max_right t stop) (enabled_of_critical critical)

theorem eventually_standing (i : ι) (t : Nat) :
    ∃ u, t ≤ u ∧ (run.state u).refreshMu = none ∧
      ∀ w, u ≤ w → ¬ Enabled Step i (run.state w) := by
  obtain ⟨stop, still⟩ := eventually_still (fair i)
  obtain ⟨u, later, free⟩ := eventually_free start fair (max t stop)
  refine ⟨u, (Nat.le_max_left t stop).trans later, free, fun w after => still w ?_⟩
  exact (Nat.le_max_right t stop).trans (later.trans after)

theorem not_waiting {i a : ι} {t : Nat}
    (still : ∀ w, t ≤ w → ¬ Enabled Step i (run.state w)) : (run.state t).pc i ≠ .waiting a := by
  intro here
  obtain ⟨u, later, free, stands⟩ := eventually_standing start fair a t
  have waits := waiting_stays here still later
  have alive : Alive (run.state u) a := (inv_always start u).alive i a (by rw [waits]; rfl)
  obtain leads | closed := alive
  · obtain place | ⟨b, place⟩ | ⟨out, place⟩ := standing free (stands u (Nat.le_refl u))
    all_goals
      rw [place] at leads
      cases leads
  · exact still u later ⟨_, .receive waits closed⟩

theorem eventually_returns {i : ι} {t : Nat} (called : (run.state t).pc i ≠ .idle) :
    ∃ u, t ≤ u ∧ ∃ out, (run.state u).pc i = .returned out := by
  obtain ⟨u, later, free, still⟩ := eventually_standing start fair i t
  obtain idle | ⟨a, waits⟩ | back := standing free (still u (Nat.le_refl u))
  · exact absurd idle (not_idle_from called later)
  · exact absurd waits (not_waiting start fair still)
  · exact ⟨u, later, back⟩

end

/-- At most one fetch is in flight, fetches start the interval apart, who took part and was not
cancelled returns the result, and if everybody who can go on does, every call returns. -/
theorem refresh_throttled_and_shared (run : Interleaved ι ε) (now : Nat)
    (start : run.state 0 = State.initial ι ε now) :
    (∀ t i j, (run.state t).pc i = .fetching → (run.state t).pc j = .fetching → i = j) ∧
    (∀ t u i j, Completes run t i → t < u → Starts run u j →
      (run.state t).now + minRefreshInterval ≤ (run.state u).now) ∧
    (∀ t u i a out, ((run.state t).pc i).attempt i = some a → t ≤ u →
      (run.state u).pc i = .returned out → (run.state u).cancelled i = false →
      ∃ v, v < u ∧ Completes run v a ∧ out = .attempt ((run.state (v + 1)).err a)) ∧
    ((∀ i, run.Fair i) → ∀ t i, (run.state t).pc i ≠ .idle →
      ∃ u, t ≤ u ∧ ∃ out, (run.state u).pc i = .returned out) := by
  refine ⟨?_, ?_, ?_, fun fair t i => eventually_returns start fair⟩
  · intro t i j one other
    exact (inv_always start t).flight.unique (by rw [one]; rfl) (by rw [other]; rfl)
  · intro t u i j completes later starts
    exact (inv_always start u).spacing (completes.recorded later) starts.1
  · intro t u i a out part later here going
    obtain still | ⟨_, back, ended | result⟩ := follows_from start part later
    · rw [here] at still
      cases still
    · rw [going] at ended
      cases ended
    · cases here.symm.trans back
      exact result

/-! A caller that leads an attempt, and another that joins it; the fetch fails. -/

def sharedMove : Nat → State Bool String → State Bool String
  | 0, s => s.goto true .start
  | 1, s => { s.goto true .locked with refreshMu := some true }
  | 2, s => { s.goto true .leading with inFlight := some true }
  | 3, s => { s.goto true .fetching with refreshMu := none }
  | 4, s => s.goto false .start
  | 5, s => { s.goto false .locked with refreshMu := some false }
  | 6, s => s.goto false (.joining true)
  | 7, s => { s.goto false (.waiting true) with refreshMu := none }
  | 8, s => { s.goto true .fetched with err := Function.update s.err true (some "down") }
  | 9, s => { s.goto true .stamping with refreshMu := some true }
  | 10, s => { s.goto true .clearing with refreshAt := some s.now }
  | 11, s => { s.goto true .closing with inFlight := none }
  | 12, s => { s.goto true .unlocking with done := Function.update s.done true true }
  | 13, s => { s.goto true (.returned (.attempt (s.err true))) with refreshMu := none }
  | 14, s => s.goto false (.returned (.attempt (s.err true)))
  | _, s => { s with now := s.now }

def sharedState : Nat → State Bool String
  | 0 => State.initial Bool String 0
  | t + 1 => sharedMove t (sharedState t)

def sharedLabel : Nat → Option Bool
  | 1 | 2 | 3 | 8 | 9 | 10 | 11 | 12 | 13 => some true
  | 5 | 6 | 7 | 14 => some false
  | _ => none

def sharedRun : Interleaved Bool String where
  state := sharedState
  label := sharedLabel
  steps
    | 0 => .call true rfl
    | 1 => .lock rfl rfl
    | 2 => .lead rfl rfl rfl
    | 3 => .unlockLead rfl
    | 4 => .call false rfl
    | 5 => .lock rfl rfl
    | 6 => .join rfl rfl
    | 7 => .unlockJoin rfl
    | 8 => .refreshJWKS (some "down") rfl
    | 9 => .lockAgain rfl rfl
    | 10 => .stamp rfl
    | 11 => .clear rfl
    | 12 => .close rfl
    | 13 => .unlockReturn rfl
    | 14 => .receive rfl rfl
    | _ + 15 => .tick (Nat.le_refl _)

theorem sharedState_after (t : Nat) : sharedState (t + 15) = sharedState 15 := by
  induction t with
  | zero => rfl
  | succ t ih => exact ih

theorem sharedRun_fair (i : Bool) : sharedRun.Fair i := by
  intro often
  obtain ⟨u, later, s', step⟩ := often 15
  obtain ⟨t, rfl⟩ := Nat.exists_eq_add_of_le' later
  have back : ((sharedState (t + 15)).pc i).rank = 0 := by
    rw [sharedState_after]
    cases i <;> rfl
  exact absurd step.rank_lt (back ▸ Nat.not_lt_zero _)

theorem refresh_shared_by_two :
    (∃ v, v < 15 ∧ Completes sharedRun v true ∧
      Outcome.attempt (some "down") = .attempt ((sharedRun.state (v + 1)).err true)) ∧
    ∃ u, 5 ≤ u ∧ ∃ out, (sharedRun.state u).pc false = .returned out := by
  obtain ⟨_, _, shares, returns⟩ := refresh_throttled_and_shared sharedRun 0 rfl
  exact ⟨shares 8 15 false true _ rfl (by decide) rfl rfl,
    returns sharedRun_fair 5 false (by decide)⟩

end Tellstone.OAuth.Refresh
