import Mathlib.Algebra.GroupWithZero.Nat
import Mathlib.Data.List.AList
import Tellstone.Lib.UpdateLog

/-! Sizes of the entries of a map, charged against a limit. An update that sets
an entry is admitted when there is room for all of it, whatever it replaces. -/

abbrev Ledger (κ : Type) := AList (fun _ : κ => Nat)

namespace Ledger

variable {κ β : Type}

def total (l : Ledger κ) : Nat := (l.entries.map fun x => x.2).sum

def room (limit : Nat) (l : Ledger κ) (size : Nat) : Bool :=
  decide (limit = 0) || decide (l.total + size ≤ limit)

@[simp] theorem total_empty : total (∅ : Ledger κ) = 0 := rfl

theorem total_perm {l l' : Ledger κ} (same : l.entries.Perm l'.entries) : total l = total l' := by
  unfold total
  exact (same.map _).sum_nat

def ofMap (size : κ → β → Nat) (m : AList fun _ : κ => β) : Ledger κ :=
  ⟨m.entries.map (.map id size), m.nodupKeys.map₂ size m.entries⟩

theorem ofMap_perm (size : κ → β → Nat) {m m' : AList fun _ : κ => β}
    (same : m.entries.Perm m'.entries) :
    (ofMap size m).entries.Perm (ofMap size m').entries :=
  same.map _

variable [DecidableEq κ]

def post (size : κ → β → Nat) (l : Ledger κ) : Update κ β → Ledger κ
  | .set k v _ => l.insert k (size k v)
  | .del k => l.erase k

def postAll (size : κ → β → Nat) (l : Ledger κ) (us : List (Update κ β)) : Ledger κ :=
  us.foldl (post size) l

def admits (size : κ → β → Nat) (limit : Nat) : Ledger κ → List (Update κ β) → Bool
  | _, [] => true
  | l, .set k v exp :: us =>
    room limit l (size k v) && admits size limit (post size l (.set k v exp)) us
  | l, .del k :: us => admits size limit (post size l (.del k)) us

theorem total_insert (l : Ledger κ) (k : κ) (n : Nat) :
    total (l.insert k n) = n + total (l.erase k) := by
  rw [total, AList.entries_insert, List.map_cons, List.sum_cons]
  rfl

theorem sum_kerase (k : κ) (entries : List (Sigma fun _ : κ => Nat)) :
    ((entries.kerase k).map fun x => x.2).sum + (entries.dlookup k).getD 0 =
      (entries.map fun x => x.2).sum := by
  induction entries with
  | nil => rfl
  | cons entry entries ih =>
    obtain ⟨j, n⟩ := entry
    by_cases same : k = j
    · subst same
      simp [Nat.add_comm]
    · simp only [ne_eq, same, not_false_eq_true, List.kerase_cons_ne, List.dlookup_cons_ne,
        List.map_cons, List.sum_cons]
      omega

theorem total_erase (l : Ledger κ) (k : κ) :
    total (l.erase k) + (l.lookup k).getD 0 = total l :=
  sum_kerase k l.entries

theorem postAll_concat (size : κ → β → Nat) (l : Ledger κ) (us : List (Update κ β))
    (u : Update κ β) : postAll size l (us ++ [u]) = post size (postAll size l us) u := by
  simp [postAll]

theorem admits_append (size : κ → β → Nat) (limit : Nat) (l : Ledger κ)
    (us vs : List (Update κ β)) :
    admits size limit l (us ++ vs) =
      (admits size limit l us && admits size limit (postAll size l us) vs) := by
  induction us generalizing l with
  | nil => simp [admits, postAll]
  | cons u us ih =>
    cases u with
    | set k v exp => simp [admits, ih, postAll, Bool.and_assoc]
    | del k => simp [admits, ih, postAll]

theorem admits_perm (size : κ → β → Nat) (limit : Nat) {l l' : Ledger κ}
    (same : l.entries.Perm l'.entries) (us : List (Update κ β)) :
    admits size limit l us = admits size limit l' us := by
  induction us generalizing l l' with
  | nil => rfl
  | cons u us ih =>
    cases u with
    | set k v exp =>
      have inserted : admits size limit (post size l (.set k v exp)) us =
          admits size limit (post size l' (.set k v exp)) us := ih (AList.perm_insert same)
      rw [admits, admits, inserted, room, room, total_perm same]
    | del k => exact ih (AList.perm_erase same)

def cost (size : κ → β → Nat) : Update κ β → Nat
  | .set k v _ => size k v
  | .del _ => 0

theorem admits_of_total {size : κ → β → Nat} {limit : Nat} {l : Ledger κ}
    {us : List (Update κ β)} (fits : limit = 0 ∨ l.total + (us.map (cost size)).sum ≤ limit) :
    admits size limit l us = true := by
  induction us generalizing l with
  | nil => rfl
  | cons u us ih =>
    cases u with
    | set k v exp =>
      have erased := total_erase l k
      have inserted := total_insert l k (size k v)
      simp only [List.map_cons, List.sum_cons, cost] at fits
      simp only [admits, room, Bool.and_eq_true, Bool.or_eq_true, decide_eq_true_eq]
      constructor
      · omega
      · apply ih
        rw [post, inserted]
        omega
    | del k =>
      have erased := total_erase l k
      simp only [List.map_cons, List.sum_cons, cost] at fits
      apply ih
      rw [post]
      omega

theorem map_kerase (size : κ → β → Nat) (k : κ) (entries : List (Sigma fun _ : κ => β)) :
    ((entries.kerase k).map (.map id size) : List (Sigma fun _ : κ => Nat)) =
      (entries.map (.map id size)).kerase k := by
  induction entries with
  | nil => rfl
  | cons entry entries ih =>
    obtain ⟨j, b⟩ := entry
    by_cases same : k = j
    · subst same
      simp [Sigma.map]
    · simp [Sigma.map, same, ih]

theorem ofMap_erase (size : κ → β → Nat) (m : AList fun _ : κ => β) (k : κ) :
    ofMap size (m.erase k) = (ofMap size m).erase k :=
  AList.ext (map_kerase size k m.entries)

theorem ofMap_insert (size : κ → β → Nat) (m : AList fun _ : κ => β) (k : κ) (b : β) :
    ofMap size (m.insert k b) = (ofMap size m).insert k (size k b) := by
  apply AList.ext
  rw [AList.entries_insert, ofMap]
  simp only [AList.entries_insert, List.map_cons, map_kerase]
  rfl

theorem ofMap_lookup (size : κ → β → Nat) (m : AList fun _ : κ => β) (k : κ) :
    (ofMap size m).lookup k = (m.lookup k).map (size k) :=
  List.dlookup_map₂ k

end Ledger
