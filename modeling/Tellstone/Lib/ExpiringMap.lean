import Mathlib.Logic.Function.Basic

/-! Maps whose entries may expire. Two are the same from some time on when no later look can tell
them apart. -/

/-- A value and, when it has one, the last instant it is visible at. -/
abbrev ExpiringMap (κ β : Type) := κ → Option (β × Option Nat)

namespace ExpiringMap

variable {κ β δ : Type}

def expired (now : Nat) : Option Nat → Bool
  | none => false
  | some e => decide (e < now)

def view (now : Nat) (m : ExpiringMap κ β) (k : κ) : Option β :=
  (m k).bind fun x => if expired now x.2 then none else some x.1

def decode (f : β → Option δ) (m : ExpiringMap κ β) : ExpiringMap κ δ :=
  fun k => (m k).bind fun x => (f x.1).map fun v => (v, x.2)

def SameFrom (now : Nat) (a b : ExpiringMap κ β) : Prop :=
  ∀ t, now ≤ t → ∀ k, view t a k = view t b k

theorem expired_mono {now later : Nat} (h : now ≤ later) {exp : Option Nat}
    (he : expired now exp = true) : expired later exp = true := by
  cases exp with
  | none => exact he
  | some e =>
    simp only [expired, decide_eq_true_eq] at he ⊢
    omega

theorem SameFrom.refl (now : Nat) (m : ExpiringMap κ β) : SameFrom now m m :=
  fun _ _ _ => rfl

theorem SameFrom.symm {now : Nat} {a b : ExpiringMap κ β} (h : SameFrom now a b) :
    SameFrom now b a :=
  fun t ht k => (h t ht k).symm

theorem SameFrom.trans {now : Nat} {a b c : ExpiringMap κ β} (h : SameFrom now a b)
    (g : SameFrom now b c) : SameFrom now a c :=
  fun t ht k => (h t ht k).trans (g t ht k)

theorem SameFrom.later {now later : Nat} {a b : ExpiringMap κ β} (h : SameFrom now a b)
    (le : now ≤ later) : SameFrom later a b :=
  fun t ht k => h t (by omega) k

theorem eq_of_last_view {now : Nat} {m : ExpiringMap κ β} {k : κ} {v : β}
    (shown : view now m k = some v) (gone : view (now + 1) m k = none) :
    m k = some (v, some now) := by
  simp only [view] at shown gone
  cases found : m k with
  | none => simp [found] at shown
  | some x =>
    obtain ⟨w, exp⟩ := x
    cases exp with
    | none => simp [found, expired] at gone
    | some e =>
      simp only [found, expired, Option.bind_some, decide_eq_true_eq, ite_eq_left_iff,
        Option.ite_none_left_eq_some, Option.some.injEq, reduceCtorEq, imp_false,
        Decidable.not_not] at shown gone
      obtain ⟨alive, rfl⟩ := shown
      have last : e = now := by omega
      rw [last]

theorem view_decode (f : β → Option δ) (now : Nat) (m : ExpiringMap κ β) (k : κ) :
    view now (decode f m) k = (view now m k).bind f := by
  simp only [view, decode]
  cases m k with
  | none => rfl
  | some x =>
    cases decoded : f x.1 <;> cases gone : expired now x.2 <;> simp [decoded, gone]

theorem SameFrom.decode {now : Nat} {a b : ExpiringMap κ β} (h : SameFrom now a b)
    (f : β → Option δ) : SameFrom now (decode f a) (decode f b) := by
  intro t ht k
  rw [view_decode, view_decode, h t ht k]

variable [DecidableEq κ]

def put (m : ExpiringMap κ β) (k : κ) (v : β) (exp : Option Nat) : ExpiringMap κ β :=
  Function.update m k (some (v, exp))

def erase (m : ExpiringMap κ β) (k : κ) : ExpiringMap κ β := Function.update m k none

@[simp] theorem view_put_self (now : Nat) (m : ExpiringMap κ β) (k : κ) (v : β)
    (exp : Option Nat) : view now (put m k v exp) k = if expired now exp then none else some v := by
  simp [view, put]

@[simp] theorem view_put_of_ne {now : Nat} {m : ExpiringMap κ β} {k j : κ} {v : β}
    {exp : Option Nat} (h : j ≠ k) : view now (put m k v exp) j = view now m j := by
  simp [view, put, h]

@[simp] theorem view_erase_self (now : Nat) (m : ExpiringMap κ β) (k : κ) :
    view now (erase m k) k = none := by
  simp [view, erase]

@[simp] theorem view_erase_of_ne {now : Nat} {m : ExpiringMap κ β} {k j : κ} (h : j ≠ k) :
    view now (erase m k) j = view now m j := by
  simp [view, erase, h]

theorem SameFrom.put {now : Nat} {a b : ExpiringMap κ β} (h : SameFrom now a b) (k : κ) (v : β)
    (exp : Option Nat) : SameFrom now (put a k v exp) (put b k v exp) := by
  intro t ht j
  by_cases same : j = k
  · subst same
    simp only [view_put_self]
  · rw [view_put_of_ne same, view_put_of_ne same, h t ht j]

theorem SameFrom.erase {now : Nat} {a b : ExpiringMap κ β} (h : SameFrom now a b) (k : κ) :
    SameFrom now (erase a k) (erase b k) := by
  intro t ht j
  by_cases same : j = k
  · subst same
    simp only [view_erase_self]
  · rw [view_erase_of_ne same, view_erase_of_ne same, h t ht j]

theorem sameFrom_erase_expired {now : Nat} {m : ExpiringMap κ β} {k : κ} {v : β}
    {exp : Option Nat} (found : m k = some (v, exp)) (gone : expired now exp = true) :
    SameFrom now (ExpiringMap.erase m k) m := by
  intro t ht j
  by_cases same : j = k
  · subst same
    simp [view, found, expired_mono ht gone, ExpiringMap.erase]
  · rw [view_erase_of_ne same]

theorem decode_put {f : β → Option δ} {v : β} {w : δ} (h : f v = some w) (m : ExpiringMap κ β)
    (k : κ) (exp : Option Nat) :
    ExpiringMap.decode f (ExpiringMap.put m k v exp) =
      ExpiringMap.put (ExpiringMap.decode f m) k w exp := by
  funext j
  by_cases same : j = k
  · subst same
    simp [ExpiringMap.decode, ExpiringMap.put, h]
  · simp [ExpiringMap.decode, ExpiringMap.put, same]

theorem decode_erase (f : β → Option δ) (m : ExpiringMap κ β) (k : κ) :
    ExpiringMap.decode f (ExpiringMap.erase m k) =
      ExpiringMap.erase (ExpiringMap.decode f m) k := by
  funext j
  by_cases same : j = k
  · subst same
    simp [ExpiringMap.decode, ExpiringMap.erase]
  · simp [ExpiringMap.decode, ExpiringMap.erase, same]

end ExpiringMap
