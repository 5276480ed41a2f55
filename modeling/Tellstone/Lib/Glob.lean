import Mathlib.Data.List.Basic
import Mathlib.Data.List.Forall2

/-! Patterns in which one symbol stands for any text and every other one for itself, and
those in which a second symbol stands for any one symbol. -/
namespace Glob

variable {α : Type} {star : α}

inductive Matches (star : α) : List α → List α → Prop where
  | nil : Matches star [] []
  | literal {c : α} {pattern text : List α} (other : c ≠ star) (rest : Matches star pattern text) :
    Matches star (c :: pattern) (c :: text)
  | any {pattern text : List α} (skipped : List α) (rest : Matches star pattern text) :
    Matches star (star :: pattern) (skipped ++ text)

namespace Matches

theorem star_cons {pattern text : List α} : Matches star (star :: pattern) text ↔
    ∃ skipped rest, text = skipped ++ rest ∧ Matches star pattern rest := by
  constructor
  · rintro (_ | ⟨other, -⟩ | ⟨skipped, rest⟩)
    · exact absurd rfl other
    · exact ⟨skipped, _, rfl, rest⟩
  · rintro ⟨skipped, rest, rfl, matched⟩
    exact .any skipped matched

theorem literal_append {front : List α} (literals : star ∉ front) {pattern text : List α} :
    Matches star (front ++ pattern) text ↔
      ∃ rest, text = front ++ rest ∧ Matches star pattern rest := by
  induction front generalizing text with
  | nil => simp
  | cons c front ih =>
    obtain ⟨other, others⟩ := not_or.mp (mt List.mem_cons.mpr literals)
    constructor
    · rintro (_ | ⟨-, matched⟩ | ⟨-, -⟩)
      · obtain ⟨rest, same, matched⟩ := (ih others).mp matched
        exact ⟨rest, congrArg (List.cons c) same, matched⟩
      · exact absurd rfl other
    · rintro ⟨rest, rfl, matched⟩
      exact .literal (Ne.symm other) ((ih others).mpr ⟨rest, rfl, matched⟩)

theorem nil_iff {text : List α} : Matches star [] text ↔ text = [] := by
  constructor
  · rintro ⟨⟩
    rfl
  · rintro rfl
    exact .nil

theorem exact_iff {pattern : List α} (literals : star ∉ pattern) {text : List α} :
    Matches star pattern text ↔ text = pattern := by
  have whole : Matches star (pattern ++ []) text ↔ _ := literal_append literals
  simpa [nil_iff] using whole

theorem suffix_iff {ending : List α} (literals : star ∉ ending) {text : List α} :
    Matches star (star :: ending) text ↔ ending <:+ text := by
  simp only [star_cons, exact_iff literals]
  constructor
  · rintro ⟨skipped, _, rfl, rfl⟩
    exact ⟨skipped, rfl⟩
  · rintro ⟨skipped, rfl⟩
    exact ⟨skipped, ending, rfl, rfl⟩

theorem initial_iff {front : List α} (literals : star ∉ front) {text : List α} :
    Matches star (front ++ [star]) text ↔ front <+: text := by
  rw [literal_append literals]
  constructor
  · rintro ⟨rest, rfl, -⟩
    exact ⟨rest, rfl⟩
  · rintro ⟨rest, rfl⟩
    refine ⟨rest, rfl, ?_⟩
    have skipped : Matches star [star] (rest ++ []) := .any rest .nil
    rwa [List.append_nil] at skipped

theorem without_stars [DecidableEq α] (pattern : List α) :
    Matches star pattern (pattern.filter fun c => decide (c ≠ star)) := by
  induction pattern with
  | nil => exact .nil
  | cons c pattern ih =>
    by_cases same : c = star
    · subst same
      rw [List.filter_cons_of_neg (by simp)]
      exact .any [] ih
    · rw [List.filter_cons_of_pos (by simp [same])]
      exact .literal same ih

end Matches

/-- The part of a text that one symbol of a pattern stands for. -/
inductive Fits (star one : α) : α → List α → Prop where
  | run (part : List α) : Fits star one star part
  | any (c : α) : Fits star one one [c]
  | self {c : α} (other : c ≠ star) (literal : c ≠ one) : Fits star one c [c]

def Splits (star one : α) (pattern text : List α) : Prop :=
  ∃ parts : List (List α), parts.flatten = text ∧ List.Forall₂ (Fits star one) pattern parts

namespace Splits

variable {one : α}

theorem nil_iff {text : List α} : Splits star one [] text ↔ text = [] := by
  constructor
  · rintro ⟨parts, rfl, fits⟩
    rw [List.forall₂_nil_left_iff.mp fits]
    rfl
  · rintro rfl
    exact ⟨[], rfl, .nil⟩

theorem cons_iff {c : α} {pattern text : List α} : Splits star one (c :: pattern) text ↔
    ∃ part rest, text = part ++ rest ∧ Fits star one c part ∧ Splits star one pattern rest := by
  constructor
  · rintro ⟨parts, rfl, fits⟩
    obtain ⟨part, others, first, rest, rfl⟩ := List.forall₂_cons_left_iff.mp fits
    exact ⟨part, others.flatten, rfl, first, others, rfl, rest⟩
  · rintro ⟨part, _, rfl, first, others, rfl, rest⟩
    exact ⟨part :: others, rfl, .cons first rest⟩

theorem star_cons {pattern text : List α} : Splits star one (star :: pattern) text ↔
    ∃ rest, rest <:+ text ∧ Splits star one pattern rest := by
  rw [cons_iff]
  constructor
  · rintro ⟨part, rest, rfl, -, matched⟩
    exact ⟨rest, ⟨part, rfl⟩, matched⟩
  · rintro ⟨rest, ⟨part, rfl⟩, matched⟩
    exact ⟨part, rest, rfl, .run part, matched⟩

theorem star_last (text : List α) : Splits star one [star] text :=
  star_cons.mpr ⟨[], List.nil_suffix, nil_iff.mpr rfl⟩

theorem star_star {pattern text : List α} :
    Splits star one (star :: star :: pattern) text ↔ Splits star one (star :: pattern) text := by
  constructor
  · intro matched
    obtain ⟨_, behind, matched⟩ := star_cons.mp matched
    obtain ⟨rest, further, matched⟩ := star_cons.mp matched
    exact star_cons.mpr ⟨rest, further.trans behind, matched⟩
  · intro matched
    exact star_cons.mpr ⟨text, List.suffix_refl text, matched⟩

theorem symbol_cons {c : α} (other : c ≠ star) {pattern text : List α} :
    Splits star one (c :: pattern) text ↔
      ∃ b rest, text = b :: rest ∧ (c = one ∨ b = c) ∧ Splits star one pattern rest := by
  rw [cons_iff]
  constructor
  · rintro ⟨part, rest, rfl, _ | b | ⟨-, -⟩, matched⟩
    · exact absurd rfl other
    · exact ⟨b, rest, rfl, .inl rfl, matched⟩
    · exact ⟨c, rest, rfl, .inr rfl, matched⟩
  · rintro ⟨b, rest, rfl, same, matched⟩
    refine ⟨[b], rest, rfl, ?_, matched⟩
    by_cases literal : c = one
    · rw [literal]
      exact .any b
    · rw [same.resolve_left literal]
      exact .self other literal

end Splits

end Glob
