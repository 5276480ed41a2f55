import Mathlib.Data.List.Basic
import Mathlib.Data.Nat.ModEq

/-! A circular buffer that overwrites its oldest element, and the history it keeps the end of. -/
namespace Ring

variable {α : Type}

/-- `head` is where the next element goes, and the `len` taken ones are the last of `history`. -/
structure Holds (cap : Nat) (buf : List α) (head len : Nat) (history : List α) : Prop where
  room : 0 < cap
  size : buf.length = cap
  next : head = history.length % cap
  taken : len = min history.length cap
  kept : ∀ i, i < history.length → history.length ≤ i + cap → buf[i % cap]? = history[i]?

def recent (blank : α) (buf : List α) (head len : Nat) : List α :=
  let start : Int := (head : Int) - len
  let start := if start < 0 then start + buf.length else start
  (List.range len).map fun i : Nat => buf.getD ((start + i) % buf.length).toNat blank

namespace Holds

variable {cap head len : Nat} {buf history : List α}

theorem empty (room : 0 < cap) (size : buf.length = cap) : Holds cap buf 0 0 [] where
  room := room
  size := size
  next := (Nat.zero_mod cap).symm
  taken := (Nat.zero_min cap).symm
  kept _ none := absurd none (Nat.not_lt_zero _)

theorem mod_ne {h i : Nat} (before : i < h) (recent : h < i + cap) : i % cap ≠ h % cap := by
  intro same
  have divides := (Nat.modEq_iff_dvd' (Nat.le_of_lt before)).mp same
  have long := Nat.le_of_dvd (Nat.sub_pos_of_lt before) divides
  omega

theorem push (holds : Holds cap buf head len history) (a : α) :
    Holds cap (buf.set head a) ((head + 1) % cap) (if len < cap then len + 1 else len)
      (history ++ [a]) where
  room := holds.room
  size := by rw [List.length_set, holds.size]
  next := by rw [holds.next, List.length_append, List.length_singleton, Nat.mod_add_mod]
  taken := by
    have taken := holds.taken
    rw [List.length_append, List.length_singleton]
    split
    · omega
    · omega
  kept i before recent := by
    rw [List.length_append, List.length_singleton] at before recent
    have within : head < buf.length := by
      rw [holds.next, holds.size]
      exact Nat.mod_lt _ holds.room
    by_cases last : i = history.length
    · subst last
      rw [← holds.next, List.getElem?_set_self within, List.getElem?_concat_length]
    · have other : head ≠ i % cap := by
        rw [holds.next]
        exact (mod_ne (by omega) (by omega)).symm
      rw [List.getElem?_set_ne other, holds.kept i (by omega) (by omega),
        List.getElem?_append_left (by omega)]

theorem recent_index (holds : Holds cap buf head len history) (i : Nat) :
    (((if (head : Int) - len < 0 then (head : Int) - len + buf.length else (head : Int) - len) + i) %
      buf.length).toNat = (history.length - len + i) % cap := by
  have taken := holds.taken
  have next := holds.next
  rw [holds.size]
  by_cases few : history.length < cap
  · rw [Nat.mod_eq_of_lt few] at next
    have all : len = history.length := by omega
    rw [if_neg (by omega), next, all, Int.sub_self, Nat.sub_self, Nat.zero_add, Int.zero_add]
    omega
  · have full : len = cap := by omega
    have below : head < cap := by
      rw [next]
      exact Nat.mod_lt _ holds.room
    have same : (history.length - cap + i) % cap = (history.length % cap + i) % cap := by
      rw [Nat.mod_add_mod, ← Nat.add_mod_right (history.length - cap + i)]
      congr 1
      omega
    rw [if_pos (by omega), full, Int.sub_add_cancel, same, ← next, ← Int.natCast_add,
      ← Int.natCast_mod, Int.toNat_natCast]

theorem recent_eq (holds : Holds cap buf head len history) (blank : α) :
    recent blank buf head len = history.drop (history.length - cap) := by
  have taken := holds.taken
  have oldest : history.length - cap = history.length - len := by omega
  rw [oldest]
  apply List.ext_getElem?
  intro i
  rw [recent, List.getElem?_map, List.getElem?_drop]
  by_cases within : i < len
  · rw [List.getElem?_range within, Option.map_some, holds.recent_index, List.getD_eq_getElem?_getD,
      holds.kept _ (by omega) (by omega), List.getElem?_eq_getElem (by omega), Option.getD_some]
  · rw [List.getElem?_eq_none (by simpa using within), List.getElem?_eq_none (by omega)]
    rfl

end Holds

end Ring
