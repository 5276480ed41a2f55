import Mathlib.Data.List.Induction
import Tellstone.Lib.ExpiringMap

/-! Logs of updates to an expiring map. A replay at some time leaves out the
entries that have expired by then, and so can leave older ones in their place. -/

inductive Update (κ β : Type) where
  | set (k : κ) (v : β) (exp : Option Nat)
  | del (k : κ)
  deriving DecidableEq, Repr

namespace Update

variable {κ β : Type}

def key : Update κ β → κ
  | .set k _ _ => k
  | .del k => k

def survives (now : Nat) : Option Nat → Bool
  | none => true
  | some e => decide (now < e)

def effective (now : Nat) : Update κ β → Bool
  | .set _ _ exp => survives now exp
  | .del _ => true

/-- The last update of `k` has expired by `now`; an earlier one has not, and was never deleted. -/
def Shadowed (now : Nat) (us : List (Update κ β)) (k : κ) : Prop :=
  ∃ before w exp between v e after,
    us = before ++ .set k w exp :: (between ++ .set k v (some e) :: after) ∧
    survives now exp = true ∧ .del k ∉ between ∧ e < now ∧ ∀ u ∈ after, u.key ≠ k

theorem not_shadowed_of_nodup {us : List (Update κ β)} (distinct : (us.map key).Nodup)
    (now : Nat) (k : κ) : ¬ Shadowed now us k := by
  rintro ⟨before, w, exp, between, v, e, after, rfl, -⟩
  simp [List.nodup_append, key] at distinct

variable [DecidableEq κ]

def apply (m : ExpiringMap κ β) : Update κ β → ExpiringMap κ β
  | .set k v exp => ExpiringMap.put m k v exp
  | .del k => ExpiringMap.erase m k

def replay (now : Nat) (m : ExpiringMap κ β) : Update κ β → ExpiringMap κ β
  | .set k v exp => if survives now exp then ExpiringMap.put m k v exp else m
  | .del k => ExpiringMap.erase m k

def applyAll (m : ExpiringMap κ β) (us : List (Update κ β)) : ExpiringMap κ β :=
  us.foldl apply m

def replayAll (now : Nat) (m : ExpiringMap κ β) (us : List (Update κ β)) : ExpiringMap κ β :=
  us.foldl (replay now) m

theorem applyAll_concat (m : ExpiringMap κ β) (us : List (Update κ β)) (u : Update κ β) :
    applyAll m (us ++ [u]) = u.apply (applyAll m us) := by
  simp [applyAll]

theorem applyAll_append (m : ExpiringMap κ β) (us vs : List (Update κ β)) :
    applyAll m (us ++ vs) = applyAll (applyAll m us) vs := by
  simp [applyAll]

theorem replayAll_concat (now : Nat) (m : ExpiringMap κ β) (us : List (Update κ β))
    (u : Update κ β) : replayAll now m (us ++ [u]) = u.replay now (replayAll now m us) := by
  simp [replayAll]

def onKey (k : κ) (us : List (Update κ β)) : List (Update κ β) :=
  us.filter fun u => decide (u.key = k)

theorem onKey_append (k : κ) (us vs : List (Update κ β)) :
    onKey k (us ++ vs) = onKey k us ++ onKey k vs :=
  List.filter_append us vs

theorem onKey_nil (k : κ) : onKey k ([] : List (Update κ β)) = [] := rfl

theorem onKey_cons_self (u : Update κ β) (us : List (Update κ β)) :
    onKey u.key (u :: us) = u :: onKey u.key us :=
  List.filter_cons_of_pos (by simp)

theorem onKey_cons_of_ne {k : κ} {u : Update κ β} (other : u.key ≠ k) (us : List (Update κ β)) :
    onKey k (u :: us) = onKey k us :=
  List.filter_cons_of_neg (by simpa using other)

theorem onKey_eq_nil {k : κ} {us : List (Update κ β)} (others : ∀ u ∈ us, u.key ≠ k) :
    onKey k us = [] :=
  List.filter_eq_nil_iff.mpr fun u mem => by simpa using others u mem

theorem apply_of_ne (m : ExpiringMap κ β) {u : Update κ β} {k : κ} (other : u.key ≠ k) :
    u.apply m k = m k := by
  cases u with
  | set j v exp => exact Function.update_of_ne (Ne.symm other) _ m
  | del j => exact Function.update_of_ne (Ne.symm other) _ m

theorem apply_at_key (m m' : ExpiringMap κ β) (u : Update κ β) :
    u.apply m u.key = u.apply m' u.key := by
  cases u with
  | set k v exp => simp [apply, key, ExpiringMap.put]
  | del k => simp [apply, key, ExpiringMap.erase]

theorem applyAll_onKey (m : ExpiringMap κ β) (us : List (Update κ β)) (k : κ) :
    applyAll m (onKey k us) k = applyAll m us k := by
  induction us using List.reverseRecOn with
  | nil => rfl
  | append_singleton us u ih =>
    rw [applyAll_concat, onKey_append]
    by_cases same : u.key = k
    · subst same
      rw [onKey_cons_self, onKey_nil, applyAll_concat]
      exact apply_at_key _ _ u
    · rw [onKey_cons_of_ne same, onKey_nil, List.append_nil, apply_of_ne _ same]
      exact ih

theorem applyAll_of_others {us : List (Update κ β)} {k : κ} (others : ∀ u ∈ us, u.key ≠ k)
    (m : ExpiringMap κ β) : applyAll m us k = m k := by
  rw [← applyAll_onKey, onKey_eq_nil others]
  rfl

/-! Updates of one key each. -/

theorem applyAll_of_mem {us : List (Update κ β)} (distinct : (us.map key).Nodup) {k : κ} {v : β}
    {exp : Option Nat} (mem : .set k v exp ∈ us) (m : ExpiringMap κ β) :
    applyAll m us k = some (v, exp) := by
  obtain ⟨before, after, rfl⟩ := List.append_of_mem mem
  have others : ∀ u ∈ after, u.key ≠ k := by
    intro u later same
    simp only [List.map_append, List.map_cons, List.nodup_append, List.nodup_cons] at distinct
    exact distinct.2.1.1 (List.mem_map.mpr ⟨u, later, same⟩)
  rw [applyAll_append, applyAll, List.foldl_cons]
  exact (applyAll_of_others others _).trans (Function.update_self _ _ _)

theorem replayAll_of_survives {now : Nat} {us : List (Update κ β)}
    (alive : ∀ k v exp, .set k v exp ∈ us → survives now exp = true) (m : ExpiringMap κ β) :
    replayAll now m us = applyAll m us := by
  induction us generalizing m with
  | nil => rfl
  | cons u us ih =>
    have first : u.replay now m = u.apply m := by
      cases u with
      | set k v exp => simp [replay, apply, alive k v exp List.mem_cons_self]
      | del k => rfl
    have rest := ih (fun k v exp mem => alive k v exp (List.mem_cons_of_mem u mem)) (u.apply m)
    simp only [replayAll, applyAll, List.foldl_cons, first] at rest ⊢
    exact rest

theorem replay_of_ne (now : Nat) (m : ExpiringMap κ β) {u : Update κ β} {k : κ}
    (other : u.key ≠ k) : u.replay now m k = m k := by
  cases u with
  | set j v exp =>
    simp only [replay]
    split
    · exact Function.update_of_ne (Ne.symm other) _ m
    · rfl
  | del j => exact Function.update_of_ne (Ne.symm other) _ m

theorem sameFrom_apply {now : Nat} {a b : ExpiringMap κ β} (same : ExpiringMap.SameFrom now a b)
    (u : Update κ β) : ExpiringMap.SameFrom now (u.apply a) (u.apply b) := by
  cases u with
  | set k v exp => exact same.put k v exp
  | del k => exact same.erase k

theorem sameFrom_applyAll {now : Nat} {a b : ExpiringMap κ β}
    (same : ExpiringMap.SameFrom now a b) (us : List (Update κ β)) :
    ExpiringMap.SameFrom now (applyAll a us) (applyAll b us) := by
  induction us generalizing a b with
  | nil => exact same
  | cons u us ih => exact ih (sameFrom_apply same u)

theorem replayAll_some {now : Nat} {us : List (Update κ β)} {k : κ} {w : β} {exp : Option Nat}
    (found : replayAll now (fun _ => none) us k = some (w, exp)) :
    ∃ before between, us = before ++ .set k w exp :: between ∧ survives now exp = true ∧
      .del k ∉ between := by
  induction us using List.reverseRecOn with
  | nil => cases found
  | append_singleton us u ih =>
    rw [replayAll_concat] at found
    have older (kept : replayAll now (fun _ => none) us k = some (w, exp)) (keeps : u ≠ .del k) :
        ∃ before between, us ++ [u] = before ++ .set k w exp :: between ∧
          survives now exp = true ∧ .del k ∉ between := by
      obtain ⟨before, between, rfl, alive, kept⟩ := ih kept
      refine ⟨before, between ++ [u], by simp, alive, ?_⟩
      simp [kept, Ne.symm keeps]
    by_cases other : u.key = k
    · cases u with
      | set j v exp' =>
        obtain rfl : j = k := other
        simp only [replay] at found
        split at found
        · rename_i alive
          simp only [ExpiringMap.put, Function.update_self, Option.some.injEq,
            Prod.mk.injEq] at found
          obtain ⟨rfl, rfl⟩ := found
          exact ⟨us, [], rfl, alive, by simp⟩
        · exact older found (by simp)
      | del j =>
        obtain rfl : j = k := other
        simp [replay, ExpiringMap.erase] at found
    · rw [replay_of_ne now _ other] at found
      apply older found
      rintro rfl
      exact other rfl

theorem replayAll_eq_or_expired {now : Nat} {us : List (Update κ β)} {k : κ}
    (lit : ¬ Shadowed now us k) (apart : ∀ v, applyAll (fun _ => none) us k ≠ some (v, some now)) :
    replayAll now (fun _ => none) us k = applyAll (fun _ => none) us k ∨
      replayAll now (fun _ => none) us k = none ∧
        ∃ v e, applyAll (fun _ => none) us k = some (v, some e) ∧ e < now := by
  induction us using List.reverseRecOn with
  | nil => exact Or.inl rfl
  | append_singleton us u ih =>
    simp only [applyAll_concat] at apart
    rw [replayAll_concat, applyAll_concat]
    by_cases other : u.key = k
    · cases u with
      | del j =>
        obtain rfl : j = k := other
        exact Or.inl (by simp [replay, apply, ExpiringMap.erase])
      | set j v exp =>
        obtain rfl : j = k := other
        simp only [replay]
        by_cases alive : survives now exp = true
        · rw [if_pos alive]
          exact Or.inl (by simp [apply, ExpiringMap.put])
        rw [if_neg alive]
        cases exp with
        | none => exact absurd rfl alive
        | some e =>
          have reached : ¬ now < e := by simpa [survives] using alive
          have distinct : e ≠ now := by
            rintro rfl
            exact apart v (by simp [apply, ExpiringMap.put])
          have past : e < now := by omega
          refine Or.inr ⟨?_, v, e, by simp [apply, ExpiringMap.put], past⟩
          cases held : replayAll now (fun _ => none) us j with
          | none => rfl
          | some x =>
            obtain ⟨before, between, rfl, kept, safe⟩ := replayAll_some held
            refine absurd ⟨before, x.1, x.2, between, v, e, [], ?_, kept, safe, past, ?_⟩ lit
            · simp
            · simp
    · have lit' : ¬ Shadowed now us k := by
        rintro ⟨before, w, exp, between, v, e, after, rfl, alive, safe, past, last⟩
        refine lit ⟨before, w, exp, between, v, e, after ++ [u], by simp, alive, safe, past, ?_⟩
        intro u' mem
        rcases List.mem_append.mp mem with old | new
        · exact last u' old
        · rw [List.mem_singleton.mp new]
          exact other
      rw [replay_of_ne now _ other, apply_of_ne _ other]
      exact ih lit' (by simpa only [apply_of_ne _ other] using apart)

theorem view_replayAll {now t : Nat} {us : List (Update κ β)} {k : κ} (later : now ≤ t)
    (lit : ¬ Shadowed now us k) (apart : ∀ v, applyAll (fun _ => none) us k ≠ some (v, some now)) :
    ExpiringMap.view t (replayAll now (fun _ => none) us) k =
      ExpiringMap.view t (applyAll (fun _ => none) us) k := by
  rcases replayAll_eq_or_expired lit apart with same | ⟨missing, v, e, stored, past⟩
  · rw [ExpiringMap.view, ExpiringMap.view, same]
  · have gone : ExpiringMap.expired t (some e) = true := by
      simp only [ExpiringMap.expired, decide_eq_true_eq]
      omega
    simp [ExpiringMap.view, missing, stored, gone]

theorem replayAll_of_nodup {now : Nat} {us : List (Update κ β)} (distinct : (us.map key).Nodup)
    (k : κ) : replayAll now (fun _ => none) us k =
      (applyAll (fun _ => none) us k).filter fun x => survives now x.2 := by
  cases held : replayAll now (fun _ => none) us k with
  | some x =>
    obtain ⟨before, between, rfl, alive, -⟩ := replayAll_some held
    have mem : .set k x.1 x.2 ∈ before ++ .set k x.1 x.2 :: between := by simp
    rw [applyAll_of_mem distinct mem]
    rw [Option.filter_some, if_pos alive]
  | none =>
    symm
    rw [Option.filter_eq_none_iff]
    intro x stored alive
    have apart : ∀ v, applyAll (fun _ => none) us k ≠ some (v, some now) := by
      intro v same
      rw [stored] at same
      cases same
      simp [survives] at alive
    rcases replayAll_eq_or_expired (not_shadowed_of_nodup distinct now k) apart with
      same | ⟨-, v, e, same, past⟩
    · rw [held, stored] at same
      cases same
    · rw [stored] at same
      cases same
      simp only [survives, decide_eq_true_eq] at alive
      omega

theorem mem_of_applyAll {us : List (Update κ β)} {k : κ} {v : β} {exp : Option Nat}
    (stored : applyAll (fun _ => none) us k = some (v, exp)) : .set k v exp ∈ us := by
  induction us using List.reverseRecOn with
  | nil => cases stored
  | append_singleton us u ih =>
    rw [applyAll_concat] at stored
    by_cases other : u.key = k
    · cases u with
      | set j w exp' =>
        obtain rfl : j = k := other
        simp only [apply, ExpiringMap.put, Function.update_self, Option.some.injEq,
          Prod.mk.injEq] at stored
        obtain ⟨rfl, rfl⟩ := stored
        simp
      | del j =>
        obtain rfl : j = k := other
        simp [apply, ExpiringMap.erase] at stored
    · rw [apply_of_ne _ other] at stored
      exact List.mem_append_left _ (ih stored)

def settles (now : Nat) (k : κ) : Update κ β → Bool
  | .set j _ exp => decide (j = k) && survives now exp
  | .del j => decide (j = k)

theorem replay_unsettled {now : Nat} {k : κ} {u : Update κ β} (unsettled : u.settles now k = false)
    (m : ExpiringMap κ β) : u.replay now m k = m k := by
  cases u with
  | set j v exp =>
    simp only [replay]
    split
    · rename_i alive
      apply Function.update_of_ne
      rintro rfl
      simp [settles, alive] at unsettled
    · rfl
  | del j =>
    apply Function.update_of_ne
    rintro rfl
    simp [settles] at unsettled

theorem replay_settled {now : Nat} {k : κ} {u : Update κ β} (settled : u.settles now k = true)
    (m m' : ExpiringMap κ β) : u.replay now m k = u.replay now m' k := by
  cases u with
  | set j v exp =>
    simp only [settles, Bool.and_eq_true, decide_eq_true_eq] at settled
    obtain ⟨rfl, alive⟩ := settled
    simp [replay, alive, ExpiringMap.put]
  | del j =>
    obtain rfl : j = k := by simpa [settles] using settled
    simp [replay, ExpiringMap.erase]

theorem replayAll_congr {now : Nat} {us : List (Update κ β)} {k : κ} {m m' : ExpiringMap κ β}
    (same : m k = m' k ∨ ∃ u ∈ us, u.settles now k = true) :
    replayAll now m us k = replayAll now m' us k := by
  induction us using List.reverseRecOn with
  | nil => simpa [replayAll] using same
  | append_singleton us u ih =>
    rw [replayAll_concat, replayAll_concat]
    cases settled : u.settles now k with
    | true => exact replay_settled settled _ _
    | false =>
      rw [replay_unsettled settled, replay_unsettled settled]
      apply ih
      rcases same with same | ⟨v, mem, decides⟩
      · exact Or.inl same
      · rcases List.mem_append.mp mem with old | new
        · exact Or.inr ⟨v, old, decides⟩
        · rw [List.mem_singleton.mp new, settled] at decides
          cases decides

end Update
