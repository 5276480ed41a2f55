import Mathlib.Logic.Function.Basic
import Mathlib.Order.WellFounded

/-! Parties that take steps one at a time: what exactly one of them may hold, and infinite runs in
which everybody who can move again and again does move. -/
namespace Interleaving

variable {ι σ : Type}

section
variable {π : Type} {f : π → Bool} {pc : ι → π} {owner : Option ι}

def Owned (f : π → Bool) (pc : ι → π) (owner : Option ι) : Prop :=
  ∀ i, f (pc i) = true ↔ owner = some i

theorem Owned.unique (owned : Owned f pc owner) {i j : ι} (one : f (pc i) = true)
    (other : f (pc j) = true) : i = j :=
  Option.some.inj (((owned i).mp one).symm.trans ((owned j).mp other))

variable [DecidableEq ι] {i : ι} {p : π}

theorem Owned.same (owned : Owned f pc owner) (same : f p = f (pc i)) :
    Owned f (Function.update pc i p) owner := by
  apply (Function.forall_update_iff pc fun j q => f q = true ↔ owner = some j).mpr
  rw [same]
  exact ⟨owned i, fun j _ => owned j⟩

theorem Owned.acquire (owned : Owned f pc owner) (free : owner = none) (enters : f p = true) :
    Owned f (Function.update pc i p) (some i) := by
  apply (Function.forall_update_iff pc fun j q => f q = true ↔ some i = some j).mpr
  refine ⟨iff_of_true enters rfl, fun j other => ?_⟩
  rw [owned j, free]
  simp [Ne.symm other]

theorem Owned.release (owned : Owned f pc owner) (holds : f (pc i) = true) (leaves : f p = false) :
    Owned f (Function.update pc i p) none := by
  apply (Function.forall_update_iff pc fun j q => f q = true ↔ none = some j).mpr
  refine ⟨by simp [leaves], fun j other => ?_⟩
  rw [owned j, (owned i).mp holds]
  simp [Ne.symm other]

end

/-- A run. The label of a step is who takes it, or none if it comes from outside. -/
structure Run (step : Option ι → σ → σ → Prop) where
  state : Nat → σ
  label : Nat → Option ι
  steps : ∀ t, step (label t) (state t) (state (t + 1))

def Enabled (step : Option ι → σ → σ → Prop) (i : ι) (s : σ) : Prop := ∃ s', step (some i) s s'

namespace Run

variable {step : Option ι → σ → σ → Prop} (run : Run step)

def Fair (i : ι) : Prop :=
  (∀ t, ∃ u, t ≤ u ∧ Enabled step i (run.state u)) → ∀ t, ∃ u, t ≤ u ∧ run.label u = some i

variable {run}

theorem always_from {inv : σ → Prop} {t : Nat} (start : inv (run.state t))
    (keeps : ∀ l s s', step l s s' → inv s → inv s') {u : Nat} (later : t ≤ u) :
    inv (run.state u) := by
  induction later with
  | refl => exact start
  | step _ ih => exact keeps _ _ _ (run.steps _) ih

theorem eventually_disabled {i : ι} (fair : run.Fair i) (rank : σ → Nat)
    (kept : ∀ l s s', step l s s' → rank s' ≤ rank s)
    (counts : ∀ s s', step (some i) s s' → rank s' < rank s) :
    ∃ t, ∀ u, t ≤ u → ¬ Enabled step i (run.state u) := by
  obtain ⟨least, ⟨t, rfl⟩, minimal⟩ :=
    WellFounded.has_min Nat.lt_wfRel.wf (Set.range fun t => rank (run.state t)) ⟨_, 0, rfl⟩
  have still (u : Nat) (later : t ≤ u) : run.label u ≠ some i := by
    intro moves
    have down := run.steps u
    rw [moves] at down
    have below : rank (run.state u) ≤ rank (run.state t) :=
      always_from (Nat.le_refl (rank (run.state t)))
        (fun l s s' next small => (kept l s s' next).trans small) later
    exact minimal _ ⟨u + 1, rfl⟩ ((counts _ _ down).trans_le below)
  by_contra often
  push Not at often
  obtain ⟨u, later, moves⟩ := fair often t
  exact still u later moves

end Run

end Interleaving
