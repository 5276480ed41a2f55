import Tellstone.Lib.Interleaving

/-! The throttled refresh of the key set, as any number of callers run it at the same time. -/
namespace Tellstone.OAuth.Refresh
open Interleaving

def minRefreshInterval : Nat := 30 * 1000000000

/-- What a call returns: the error of an attempt, which may be nil, or an error of its own. -/
inductive Outcome (ε : Type) where
  | attempt (err : Option ε)
  | coolingDown
  | cancelled
  deriving DecidableEq, Repr

/-- Where a caller is. An attempt is named after the caller that makes it. -/
inductive Pc (ι ε : Type) where
  | idle
  /-- about to lock -/
  | start
  /-- has the lock and is about to look what is in flight -/
  | locked
  /-- found the attempt and is about to unlock -/
  | joining (a : ι)
  /-- in the select -/
  | waiting (a : ι)
  /-- came too early and is about to unlock -/
  | cooling
  /-- entered its attempt and is about to unlock -/
  | leading
  /-- the fetch is in flight -/
  | fetching
  /-- the fetch is over; about to lock -/
  | fetched
  /-- has the lock and is about to set the time -/
  | stamping
  /-- about to take the attempt out -/
  | clearing
  /-- about to close the channel -/
  | closing
  /-- about to unlock and return -/
  | unlocking
  | returned (out : Outcome ε)
  deriving DecidableEq, Repr

structure State (ι ε : Type) where
  pc : ι → Pc ι ε
  refreshMu : Option ι
  inFlight : Option ι
  refreshAt : Option Nat
  err : ι → Option ε
  done : ι → Bool
  cancelled : ι → Bool
  now : Nat

def State.initial (ι ε : Type) (now : Nat) : State ι ε :=
  ⟨fun _ => .idle, none, none, none, fun _ => none, fun _ => false, fun _ => false, now⟩

def tooEarly (refreshAt : Option Nat) (now : Nat) : Bool :=
  match refreshAt with
  | none => false
  | some last => decide (now < last + minRefreshInterval)

variable {ι ε : Type}

section
variable [DecidableEq ι]

def State.goto (s : State ι ε) (i : ι) (p : Pc ι ε) : State ι ε :=
  { s with pc := Function.update s.pc i p }

/-- One step of a caller, or one from outside: a call, the clock, or a context that is done. -/
inductive Step : Option ι → State ι ε → State ι ε → Prop where
  | call {s : State ι ε} (i : ι) (here : s.pc i = .idle) : Step none s (s.goto i .start)
  | tick {s : State ι ε} {now : Nat} (later : s.now ≤ now) : Step none s { s with now := now }
  | cancel {s : State ι ε} (i : ι) :
    Step none s { s with cancelled := Function.update s.cancelled i true }
  | lock {s : State ι ε} {i : ι} (here : s.pc i = .start) (free : s.refreshMu = none) :
    Step (some i) s { s.goto i .locked with refreshMu := some i }
  | join {s : State ι ε} {i a : ι} (here : s.pc i = .locked) (found : s.inFlight = some a) :
    Step (some i) s (s.goto i (.joining a))
  | cool {s : State ι ε} {i : ι} (here : s.pc i = .locked) (none : s.inFlight = none)
    (early : tooEarly s.refreshAt s.now = true) : Step (some i) s (s.goto i .cooling)
  | lead {s : State ι ε} {i : ι} (here : s.pc i = .locked) (none : s.inFlight = none)
    (late : tooEarly s.refreshAt s.now = false) :
    Step (some i) s { s.goto i .leading with inFlight := some i }
  | unlockJoin {s : State ι ε} {i a : ι} (here : s.pc i = .joining a) :
    Step (some i) s { s.goto i (.waiting a) with refreshMu := none }
  | unlockCool {s : State ι ε} {i : ι} (here : s.pc i = .cooling) :
    Step (some i) s { s.goto i (.returned .coolingDown) with refreshMu := none }
  | unlockLead {s : State ι ε} {i : ι} (here : s.pc i = .leading) :
    Step (some i) s { s.goto i .fetching with refreshMu := none }
  | receive {s : State ι ε} {i a : ι} (here : s.pc i = .waiting a) (closed : s.done a = true) :
    Step (some i) s (s.goto i (.returned (.attempt (s.err a))))
  | abandon {s : State ι ε} {i a : ι} (here : s.pc i = .waiting a) (ended : s.cancelled i = true) :
    Step (some i) s (s.goto i (.returned .cancelled))
  | refreshJWKS {s : State ι ε} {i : ι} (err : Option ε) (here : s.pc i = .fetching) :
    Step (some i) s { s.goto i .fetched with err := Function.update s.err i err }
  | lockAgain {s : State ι ε} {i : ι} (here : s.pc i = .fetched) (free : s.refreshMu = none) :
    Step (some i) s { s.goto i .stamping with refreshMu := some i }
  | stamp {s : State ι ε} {i : ι} (here : s.pc i = .stamping) :
    Step (some i) s { s.goto i .clearing with refreshAt := some s.now }
  | clear {s : State ι ε} {i : ι} (here : s.pc i = .clearing) :
    Step (some i) s { s.goto i .closing with inFlight := none }
  | close {s : State ι ε} {i : ι} (here : s.pc i = .closing) :
    Step (some i) s { s.goto i .unlocking with done := Function.update s.done i true }
  | unlockReturn {s : State ι ε} {i : ι} (here : s.pc i = .unlocking) :
    Step (some i) s { s.goto i (.returned (.attempt (s.err i))) with refreshMu := none }

end

namespace Pc

def critical : Pc ι ε → Bool
  | locked | joining _ | cooling | leading | stamping | clearing | closing | unlocking => true
  | _ => false

def flying : Pc ι ε → Bool
  | leading | fetching | fetched | stamping | clearing => true
  | _ => false

def leads : Pc ι ε → Bool
  | closing => true
  | p => p.flying

def answered : Pc ι ε → Bool
  | fetched | stamping | clearing | closing | unlocking => true
  | _ => false

/-- The attempt that caller `i` takes part in, as its leader or as one that joined. -/
def attempt (i : ι) : Pc ι ε → Option ι
  | joining a | waiting a => some a
  | leading | fetching | fetched | stamping | clearing | closing | unlocking => some i
  | _ => none

theorem leads_of_flying {p : Pc ι ε} (flying : p.flying = true) : p.leads = true := by
  cases p with
  | leading | fetching | fetched | stamping | clearing => rfl
  | _ => cases flying

def rank : Pc ι ε → Nat
  | idle => 12
  | start => 11
  | locked => 10
  | leading => 9
  | fetching => 8
  | fetched => 7
  | stamping => 6
  | clearing => 5
  | closing => 4
  | unlocking => 3
  | joining _ => 2
  | waiting _ | cooling => 1
  | returned _ => 0

end Pc

theorem tooEarly_mono {refreshAt : Option Nat} {now later : Nat} (le : now ≤ later)
    (late : tooEarly refreshAt now = false) : tooEarly refreshAt later = false := by
  cases refreshAt with
  | none => rfl
  | some last =>
    simp only [tooEarly, decide_eq_false_iff_not] at late ⊢
    omega

def Alive (s : State ι ε) (a : ι) : Prop := (s.pc a).leads = true ∨ s.done a = true

structure Inv (s : State ι ε) : Prop where
  mutex : Owned Pc.critical s.pc s.refreshMu
  flight : Owned Pc.flying s.pc s.inFlight
  alive : ∀ i a, (s.pc i).attempt i = some a → Alive s a
  spaced : ∀ i, s.pc i = .leading → tooEarly s.refreshAt s.now = false

theorem Inv.initial (now : Nat) : Inv (State.initial ι ε now) where
  mutex i := by simp [State.initial, Pc.critical]
  flight i := by simp [State.initial, Pc.flying]
  alive i a part := by cases part
  spaced i here := by cases here

/-- How a step from `s` to `s'` takes caller `i` from one place to the next. -/
inductive Moves (s s' : State ι ε) (i : ι) : Pc ι ε → Pc ι ε → Prop where
  | call : Moves s s' i .idle .start
  | lock : Moves s s' i .start .locked
  | join {a : ι} (found : s.inFlight = some a) : Moves s s' i .locked (.joining a)
  | cool : Moves s s' i .locked .cooling
  | lead (late : tooEarly s.refreshAt s.now = false) : Moves s s' i .locked .leading
  | unlockJoin {a : ι} : Moves s s' i (.joining a) (.waiting a)
  | unlockCool : Moves s s' i .cooling (.returned .coolingDown)
  | unlockLead : Moves s s' i .leading .fetching
  | receive {a : ι} (closed : s.done a = true) :
    Moves s s' i (.waiting a) (.returned (.attempt (s.err a)))
  | abandon {a : ι} (ended : s.cancelled i = true) :
    Moves s s' i (.waiting a) (.returned .cancelled)
  | refreshJWKS : Moves s s' i .fetching .fetched
  | lockAgain : Moves s s' i .fetched .stamping
  | stamp (set : s'.refreshAt = some s.now) : Moves s s' i .stamping .clearing
  | clear : Moves s s' i .clearing .closing
  | close (closed : s'.done i = true) : Moves s s' i .closing .unlocking
  | unlockReturn : Moves s s' i .unlocking (.returned (.attempt (s.err i)))

section
variable {s s' : State ι ε} {l : Option ι} {i j a : ι} {p q : Pc ι ε}

theorem Moves.rank (moves : Moves s s' i p q) : q.rank < p.rank := by
  cases moves <;> simp [Pc.rank]

theorem Moves.leads (moves : Moves s s' i p q) (leads : p.leads = true) :
    q.leads = true ∨ s'.done i = true := by
  cases moves with
  | unlockLead | refreshJWKS | lockAgain | stamp | clear => exact Or.inl rfl
  | close closed => exact Or.inr closed
  | _ => cases leads

theorem Moves.answered (moves : Moves s s' i p q) (answered : q.answered = true) :
    p.answered = true ∨ p = .fetching ∧ q = .fetched := by
  cases moves with
  | refreshJWKS => exact Or.inr ⟨rfl, rfl⟩
  | lockAgain | stamp | clear | close => exact Or.inl rfl
  | _ => cases answered

theorem Moves.attempt (moves : Moves s s' i p q) (part : q.attempt i = some a) :
    p.attempt i = some a ∨ s.inFlight = some a ∨ a = i ∧ q.leads = true := by
  cases moves with
  | join found => exact Or.inr (Or.inl (found.trans part))
  | lead => exact Or.inr (Or.inr ⟨(Option.some.inj part).symm, rfl⟩)
  | unlockJoin | unlockLead | refreshJWKS | lockAgain | stamp | clear | close => exact Or.inl part
  | _ => cases part

theorem Moves.not_idle (moves : Moves s s' i p q) : q ≠ .idle := by
  cases moves <;> nofun

variable [DecidableEq ι]

theorem Step.own (step : Step (some i) s s') :
    ∃ p, s'.pc = Function.update s.pc i p ∧ Moves s s' i (s.pc i) p := by
  cases step with
  | lock here => exact ⟨_, rfl, by rw [here]; exact .lock⟩
  | join here found => exact ⟨_, rfl, by rw [here]; exact .join found⟩
  | cool here => exact ⟨_, rfl, by rw [here]; exact .cool⟩
  | lead here _ late => exact ⟨_, rfl, by rw [here]; exact .lead late⟩
  | unlockJoin here => exact ⟨_, rfl, by rw [here]; exact .unlockJoin⟩
  | unlockCool here => exact ⟨_, rfl, by rw [here]; exact .unlockCool⟩
  | unlockLead here => exact ⟨_, rfl, by rw [here]; exact .unlockLead⟩
  | receive here closed => exact ⟨_, rfl, by rw [here]; exact .receive closed⟩
  | abandon here ended => exact ⟨_, rfl, by rw [here]; exact .abandon ended⟩
  | refreshJWKS err here => exact ⟨_, rfl, by rw [here]; exact .refreshJWKS⟩
  | lockAgain here => exact ⟨_, rfl, by rw [here]; exact .lockAgain⟩
  | stamp here => exact ⟨_, rfl, by rw [here]; exact .stamp rfl⟩
  | clear here => exact ⟨_, rfl, by rw [here]; exact .clear⟩
  | close here => exact ⟨_, rfl, by rw [here]; exact .close (Function.update_self _ _ _)⟩
  | unlockReturn here => exact ⟨_, rfl, by rw [here]; exact .unlockReturn⟩

theorem moves_of_update (pc : s'.pc = Function.update s.pc i p) (moves : Moves s s' i (s.pc i) p)
    (j : ι) : s'.pc j = s.pc j ∨ Moves s s' j (s.pc j) (s'.pc j) := by
  rw [pc]
  by_cases same : j = i
  · subst same
    rw [Function.update_self]
    exact Or.inr moves
  · exact Or.inl (Function.update_of_ne same _ _)

theorem Step.moves (step : Step l s s') (j : ι) :
    s'.pc j = s.pc j ∨ Moves s s' j (s.pc j) (s'.pc j) := by
  cases l with
  | some i =>
    obtain ⟨p, pc, moves⟩ := step.own
    exact moves_of_update pc moves j
  | none =>
    cases step with
    | call i here => exact moves_of_update rfl (by rw [here]; exact .call) j
    | tick | cancel => exact Or.inl rfl

theorem Step.rank_le (step : Step l s s') (j : ι) : (s'.pc j).rank ≤ (s.pc j).rank := by
  obtain same | moves := step.moves j
  · rw [same]
  · exact moves.rank.le

theorem Step.rank_lt (step : Step (some i) s s') : (s'.pc i).rank < (s.pc i).rank := by
  obtain ⟨p, pc, moves⟩ := step.own
  rw [pc, Function.update_self]
  exact moves.rank

theorem Step.now (step : Step l s s') : s.now ≤ s'.now := by
  cases step with
  | tick later => exact later
  | _ => exact Nat.le_refl _

theorem Step.refreshAt (step : Step l s s') : s'.refreshAt = s.refreshAt ∨
    s'.refreshAt = some s.now ∧ ∃ i, s.pc i = .stamping := by
  cases step with
  | stamp here => exact Or.inr ⟨rfl, _, here⟩
  | _ => exact Or.inl rfl

theorem Step.refreshMu (step : Step l s s') :
    s.refreshMu = none ∨ s'.refreshMu = none ∨ s'.refreshMu = s.refreshMu := by
  cases step with
  | lock _ free | lockAgain _ free => exact Or.inl free
  | unlockJoin | unlockCool | unlockLead | unlockReturn => exact Or.inr (Or.inl rfl)
  | _ => exact Or.inr (Or.inr rfl)

theorem Step.err (step : Step l s s') (j : ι) :
    s'.err j = s.err j ∨ s.pc j = .fetching ∧ s'.pc j = .fetched := by
  cases step with
  | @refreshJWKS _ i err here =>
    by_cases same : j = i
    · subst same
      exact Or.inr ⟨here, Function.update_self _ _ _⟩
    · exact Or.inl (Function.update_of_ne same _ _)
  | _ => exact Or.inl rfl

theorem Step.done (step : Step l s s') (closed : s.done j = true) : s'.done j = true := by
  cases step with
  | close => simp [Function.update_apply, closed]
  | _ => exact closed

theorem Step.closes (step : Step l s s') (closed : s'.done j = true) :
    s.done j = true ∨ s'.pc j = .unlocking := by
  cases step with
  | @close _ i here =>
    by_cases same : j = i
    · subst same
      exact Or.inr (Function.update_self _ _ _)
    · exact Or.inl ((Function.update_of_ne same _ _).symm.trans closed)
  | _ => exact Or.inl closed

theorem Step.cancelled (step : Step l s s') (ended : s.cancelled j = true) :
    s'.cancelled j = true := by
  cases step with
  | cancel => simp [Function.update_apply, ended]
  | _ => exact ended

theorem Step.mutex (step : Step l s s') (mutex : Owned Pc.critical s.pc s.refreshMu) :
    Owned Pc.critical s'.pc s'.refreshMu := by
  cases step with
  | tick | cancel => exact mutex
  | lock here free | lockAgain here free => exact mutex.acquire free rfl
  | unlockJoin here | unlockCool here | unlockLead here | unlockReturn here =>
    exact mutex.release (by rw [here]; rfl) rfl
  | call _ here | join here | cool here | lead here | receive here | abandon here
  | refreshJWKS _ here | stamp here | clear here | close here =>
    exact mutex.same (by rw [here]; rfl)

theorem Step.flight (step : Step l s s') (flight : Owned Pc.flying s.pc s.inFlight) :
    Owned Pc.flying s'.pc s'.inFlight := by
  cases step with
  | tick | cancel => exact flight
  | lead here none => exact flight.acquire none rfl
  | clear here => exact flight.release (by rw [here]; rfl) rfl
  | call _ here | lock here | join here | cool here | unlockJoin here | unlockCool here
  | unlockLead here | receive here | abandon here | refreshJWKS _ here | lockAgain here
  | stamp here | close here | unlockReturn here => exact flight.same (by rw [here]; rfl)

theorem Step.alive (step : Step l s s') (alive : Alive s a) : Alive s' a := by
  obtain leads | closed := alive
  · obtain same | moves := step.moves a
    · exact Or.inl (same ▸ leads)
    · exact moves.leads leads
  · exact Or.inr (step.done closed)

theorem Inv.refreshAt (inv : Inv s) (step : Step l s s') (critical : (s.pc i).critical = true)
    (other : s.pc i ≠ .stamping) : s'.refreshAt = s.refreshAt := by
  obtain same | ⟨_, j, here⟩ := step.refreshAt
  · exact same
  · have holds : (s.pc j).critical = true := by rw [here]; rfl
    have same := inv.mutex.unique critical holds
    subst same
    exact absurd here other

theorem Inv.step_alive (inv : Inv s) (step : Step l s s') (part : (s'.pc i).attempt i = some a) :
    Alive s' a := by
  obtain same | moves := step.moves i
  · rw [same] at part
    exact step.alive (inv.alive i a part)
  · obtain before | found | ⟨rfl, leads⟩ := moves.attempt part
    · exact step.alive (inv.alive i a before)
    · have flying := (inv.flight a).mpr found
      exact step.alive (Or.inl (Pc.leads_of_flying flying))
    · exact Or.inl leads

theorem Inv.step_spaced (inv : Inv s) (step : Step l s s') (here : s'.pc i = .leading) :
    tooEarly s'.refreshAt s'.now = false := by
  obtain same | moves := step.moves i
  · have before : s.pc i = .leading := same.symm.trans here
    rw [inv.refreshAt step (by rw [before]; rfl) (by rw [before]; nofun)]
    exact tooEarly_mono step.now (inv.spaced i before)
  · rw [here] at moves
    generalize before : s.pc i = p at moves
    cases moves with
    | lead late =>
      rw [inv.refreshAt step (by rw [before]; rfl) (by rw [before]; nofun)]
      exact tooEarly_mono step.now late

theorem Inv.step (inv : Inv s) (step : Step l s s') : Inv s' where
  mutex := step.mutex inv.mutex
  flight := step.flight inv.flight
  alive _ _ part := inv.step_alive step part
  spaced _ here := inv.step_spaced step here

end

end Tellstone.OAuth.Refresh
