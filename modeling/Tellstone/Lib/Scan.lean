import Mathlib.Data.List.DropRight
import Mathlib.Data.List.Infix

/-! Scanning a text: windows with checked bounds, cuts at the first occurrence, and white space
trimmed off both ends. -/
namespace Scan

variable {α β : Type}

def slice (b : List α) (low high : Nat) : Option (List α) :=
  if low ≤ high ∧ high ≤ b.length then some ((b.take high).drop low) else none

theorem slice_drop {b : List α} {low : Nat} (inside : low ≤ b.length) :
    slice b low b.length = some (b.drop low) := by
  rw [slice, if_pos ⟨inside, Nat.le_refl _⟩, List.take_length]

theorem slice_middle (front middle back : List α) :
    slice (front ++ middle ++ back) front.length (front.length + middle.length) =
      some middle := by
  rw [slice, if_pos (by simp), ← List.length_append, List.take_left, List.drop_left]

theorem slice_before (front back : List α) (c : α) :
    slice (front ++ c :: back) 0 front.length = some front := by
  rw [slice, if_pos (by simp), List.take_left, List.drop_zero]

theorem slice_behind (front back : List α) (c : α) :
    slice (front ++ c :: back) (front.length + 1) (front ++ c :: back).length = some back := by
  rw [slice_drop (by simp), List.append_cons]
  have behind : (front ++ [c] ++ back).drop (front ++ [c]).length = back := List.drop_left
  rw [List.length_append, List.length_singleton] at behind
  rw [behind]

theorem exists_first (kind : α → Prop) {b : List α} (there : ∃ c ∈ b, kind c) :
    ∃ front c back, b = front ++ c :: back ∧ kind c ∧ ∀ x ∈ front, ¬kind x := by
  induction b with
  | nil =>
    obtain ⟨c, mem, -⟩ := there
    cases mem
  | cons x b ih =>
    by_cases here : kind x
    · exact ⟨[], x, b, rfl, here, by simp⟩
    · obtain ⟨c, mem, found⟩ := there
      have behind : c ∈ b := (List.mem_cons.mp mem).resolve_left (fun same => here (same ▸ found))
      obtain ⟨front, c, back, rfl, found, before⟩ := ih ⟨c, behind, found⟩
      exact ⟨x :: front, c, back, rfl, found, by simpa [here] using before⟩

section
variable [DecidableEq α]

def cut (c : α) : List α → Option (List α × List α)
  | [] => none
  | x :: rest => if x = c then some ([], rest) else (cut c rest).map fun p => (x :: p.1, p.2)

theorem cut_append {c : α} {front : List α} (before : c ∉ front) (back : List α) :
    cut c (front ++ c :: back) = some (front, back) := by
  induction front with
  | nil => simp [cut]
  | cons x front ih =>
    obtain ⟨other, before⟩ := not_or.mp (mt List.mem_cons.mpr before)
    simp [cut, Ne.symm other, ih before]

theorem cut_none {c : α} {b : List α} (absent : c ∉ b) : cut c b = none := by
  induction b with
  | nil => rfl
  | cons x b ih =>
    obtain ⟨other, absent⟩ := not_or.mp (mt List.mem_cons.mpr absent)
    simp [cut, Ne.symm other, ih absent]

theorem cut_cases (c : α) (b : List α) :
    c ∉ b ∧ cut c b = none ∨
      ∃ front back, b = front ++ c :: back ∧ c ∉ front ∧ cut c b = some (front, back) := by
  by_cases there : c ∈ b
  · obtain ⟨front, x, back, whole, same, others⟩ := exists_first (· = c) ⟨c, there, rfl⟩
    rw [same] at whole
    have before : c ∉ front := fun mem => others c mem rfl
    exact .inr ⟨front, back, whole, before, whole ▸ cut_append before back⟩
  · exact .inl ⟨there, cut_none there⟩

theorem cut_last (c : α) (b : List α) :
    (cut c (b ++ [c])).map Prod.fst = some (b.takeWhile fun x => decide (x ≠ c)) := by
  induction b with
  | nil => simp [cut]
  | cons x b ih =>
    by_cases same : x = c
    · simp [cut, same]
    · obtain ⟨p, found, first⟩ := Option.map_eq_some_iff.mp ih
      simp [cut, same, found, first]

def find (fold : β → α) (word : List α) (b : List β) : Option Nat :=
  (List.range (b.length + 1 - word.length)).find? fun i =>
    decide (((b.drop i).take word.length).map fold = word)

theorem find_inside {fold : β → α} {word : List α} {b : List β} {i : Nat}
    (found : find fold word b = some i) : i + word.length ≤ b.length := by
  have below := List.mem_range.mp (List.mem_of_find?_eq_some found)
  omega

theorem find_le {fold : β → α} {word : List α} {front back : List β} {here : List β}
    (same : here.map fold = word) :
    ∃ i ≤ front.length, find fold word (front ++ here ++ back) = some i := by
  have long : here.length = word.length := by rw [← same, List.length_map]
  have matched : decide ((((front ++ here ++ back).drop front.length).take word.length).map fold =
      word) = true := by
    rw [List.append_assoc, List.drop_left, ← long, List.take_left, same, decide_eq_true rfl]
  have inside : front.length ∈
      List.range ((front ++ here ++ back).length + 1 - word.length) := by
    simp only [List.mem_range, List.length_append]
    omega
  have somewhere : (find fold word (front ++ here ++ back)).isSome = true :=
    List.find?_isSome.mpr ⟨front.length, inside, matched⟩
  obtain ⟨i, found⟩ := Option.isSome_iff_exists.mp somewhere
  refine ⟨i, ?_, found⟩
  by_contra later
  have earlier := (List.find?_range_eq_some.mp found).2.2 front.length (by omega)
  rw [matched] at earlier
  cases earlier

end

section
variable (space : α → Bool)

def trim (b : List α) : List α := (b.dropWhile space).rdropWhile space

variable {space}

theorem trim_space {x : α} (blank : space x = true) (b : List α) :
    trim space (x :: b) = trim space b := by
  rw [trim, List.dropWhile_cons_of_pos blank, trim]

theorem trim_cons {x : α} (bare : space x = false) (b : List α) :
    trim space (x :: b) = x :: b.rdropWhile space := by
  rw [trim, List.dropWhile_cons_of_neg (by simp [bare])]
  induction b using List.reverseRecOn with
  | nil => simp [bare]
  | append_singleton b y ih =>
    rw [← List.cons_append, List.rdropWhile_concat, List.rdropWhile_concat, ih]
    split <;> rfl

theorem trim_framed {x y : α} (first : space x = false) (last : space y = false) (b : List α) :
    trim space (x :: (b ++ [y])) = x :: (b ++ [y]) := by
  rw [trim_cons first, List.rdropWhile_concat_neg _ _ _ (by simp [last])]

end

end Scan
