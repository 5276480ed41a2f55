import Mathlib.Data.List.Basic

/-! Removal from a list by moving its last element into the gap. -/
namespace SwapDelete

variable {α : Type}

/-- The last element takes the place of element `i`, and the list ends one earlier. -/
def swapDelete (xs : List α) (i : Nat) : List α :=
  match xs.getLast? with
  | some last => (xs.set i last).dropLast
  | none => xs

theorem length_swapDelete {xs : List α} {i : Nat} (within : i < xs.length) :
    (swapDelete xs i).length + 1 = xs.length := by
  unfold swapDelete
  split
  · rw [List.length_dropLast, List.length_set]
    omega
  · rename_i empty
    rw [List.getLast?_eq_none_iff.mp empty] at within
    cases within

theorem swapDelete_append (before : List α) (a : α) (behind : List α) :
    ∃ moved, moved.Perm behind ∧
      swapDelete (before ++ a :: behind) before.length = before ++ moved := by
  rcases List.eq_nil_or_concat' behind with rfl | ⟨rest, last, rfl⟩
  · refine ⟨[], .nil, ?_⟩
    simp [swapDelete]
  · refine ⟨last :: rest, ?_, ?_⟩
    · exact (List.perm_append_singleton last rest).symm
    · have ends : before ++ a :: (rest ++ [last]) = (before ++ a :: rest) ++ [last] := by simp
      have gap : ((last :: rest) ++ [last]).dropLast = last :: rest := List.dropLast_concat
      rw [List.cons_append] at gap
      rw [ends, swapDelete, List.getLast?_concat]
      simp [gap]

theorem swapDelete_at {xs : List α} {i : Nat} (within : i < xs.length) :
    (swapDelete xs i).take i = xs.take i ∧ ((swapDelete xs i).drop i).Perm (xs.drop (i + 1)) := by
  have parts : xs.take i ++ xs[i] :: xs.drop (i + 1) = xs := by
    rw [← List.drop_eq_getElem_cons within, List.take_append_drop]
  have size : (xs.take i).length = i := List.length_take_of_le (Nat.le_of_lt within)
  obtain ⟨moved, perm, split⟩ := swapDelete_append (xs.take i) xs[i] (xs.drop (i + 1))
  rw [parts, size] at split
  rw [split, List.take_left' size, List.drop_left' size]
  exact ⟨rfl, perm⟩

end SwapDelete
