import Mathlib.Data.List.Infix
import Tellstone.Lib.Glob
import Tellstone.Rbac.Config
import Tellstone.Rbac.Rules

/-! What the match patterns of the claim-to-role rules mean. -/
namespace Tellstone.Rbac
open ByteStream

def compile (claim : Bytes) (role : Role) (pattern : Bytes) : Except Error OAuthRule :=
  (parseMatch pattern).map fun parts => ⟨claim, parts.1, parts.2.1, parts.2.2, role⟩

theorem addRule_compiles {p p' : PolicyStore} {r : RuleEntry} (added : addRule p r = .ok p') :
    ∃ role rule, p.roles.lookup r.role = some role ∧ r.pattern ≠ [] ∧
      compile r.claim role r.pattern = .ok rule ∧
      p' = { p with oauthRules := p.oauthRules ++ [rule] } := by
  unfold addRule at added
  split at added
  · cases added
  split at added
  · cases added
  rename_i present
  split at added
  · cases added
  split at added
  · cases added
  rename_i role found
  cases parsed : parseMatch r.pattern with
  | error err => simp [parsed, Except.map] at added
  | ok parts =>
    simp only [parsed, Except.map, Except.ok.injEq] at added
    exact ⟨role, _, found, present, by rw [compile, parsed]; rfl, added.symm⟩

def WellFormed (pattern : Bytes) : Prop :=
  pattern.count 42 = 0 ∨
    pattern.count 42 = 1 ∧ (pattern.head? = some 42 ∨ pattern.getLast? = some 42)

/-- More than one star, the first or the last of them at an end of the pattern. -/
def Starred (pattern : Bytes) : Prop :=
  2 ≤ pattern.count 42 ∧ (pattern.head? = some 42 ∨ pattern.getLast? = some 42)

def AcceptsWellFormed (pattern : Bytes) : Prop :=
  (∃ parts, parseMatch pattern = .ok parts) ↔ WellFormed pattern

def MatchesAsGlob (pattern : Bytes) : Prop :=
  ∀ claim role rule, compile claim role pattern = .ok rule →
    ∀ values, rule.matchesValues values = true ↔ ∃ v ∈ values, Glob.Matches 42 pattern v

theorem parseMatch_ok_iff {pattern : Bytes} : (∃ parts, parseMatch pattern = .ok parts) ↔
    pattern.count 42 = 0 ∨ pattern.head? = some 42 ∨ pattern.getLast? = some 42 := by
  unfold parseMatch
  split
  · simp [*]
  split
  · simp [*]
  split
  · simp [*]
  · simp [*]

theorem acceptsWellFormed_iff {pattern : Bytes} : AcceptsWellFormed pattern ↔ ¬ Starred pattern := by
  rw [AcceptsWellFormed, parseMatch_ok_iff, WellFormed, Starred]
  by_cases ends : pattern.head? = some 42 ∨ pattern.getLast? = some 42
  · simp only [ends, or_true, and_true, true_iff]
    omega
  · simp [ends]

section
variable {pattern : Bytes} {claim : Bytes} {role : Role}

theorem compile_exact (none : pattern.count 42 = 0) :
    compile claim role pattern = .ok ⟨claim, pattern, [], [], role⟩ := by
  rw [compile, parseMatch, if_pos none]
  rfl

theorem compile_leading (rest : Bytes) :
    compile claim role (42 :: rest) = .ok ⟨claim, [], [], rest, role⟩ := by
  rw [compile, parseMatch, if_neg (by simp), if_pos (by simp)]
  rfl

theorem compile_trailing (front : Bytes) (other : front.head? ≠ some 42) (present : front ≠ []) :
    compile claim role (front ++ [42]) = .ok ⟨claim, [], front, [], role⟩ := by
  have first : (front ++ [42]).head? ≠ some 42 := by
    rwa [List.head?_append_of_ne_nil _ present]
  rw [compile, parseMatch, if_neg (by simp), if_neg first, if_pos (by simp), trimStar_append]
  rfl

theorem matchesValues_iff {r : OAuthRule} {values : List Bytes} :
    r.matchesValues values = true ↔ ∃ v ∈ values,
      (r.exact ≠ [] ∧ v = r.exact) ∨ (r.leading ≠ [] ∧ r.leading <+: v) ∨
        (r.trailing ≠ [] ∧ r.trailing <:+ v) ∨
        (r.exact = [] ∧ r.leading = [] ∧ r.trailing = []) := by
  simp only [OAuthRule.matchesValues, List.any_eq_true, Bool.or_eq_true, Bool.and_eq_true,
    decide_eq_true_eq, List.isPrefixOf_iff_prefix, List.isSuffixOf_iff_suffix, or_assoc]

theorem matchesAsGlob_of_single (present : pattern ≠ []) (single : ¬ Starred pattern) :
    MatchesAsGlob pattern := by
  intro claim role rule compiled values
  by_cases none : pattern.count 42 = 0
  · rw [compile_exact none] at compiled
    cases compiled
    simp [matchesValues_iff, Glob.Matches.exact_iff (List.count_eq_zero.mp none), present]
  by_cases first : pattern.head? = some 42
  · obtain ⟨rest, rfl⟩ := List.head?_eq_some_iff.mp first
    have literals : (42 : UInt8) ∉ rest := by
      intro mem
      have more := List.count_pos_iff.mpr mem
      exact single ⟨by rw [List.count_cons_self]; omega, Or.inl first⟩
    rw [compile_leading] at compiled
    cases compiled
    simp only [matchesValues_iff, Glob.Matches.suffix_iff literals]
    by_cases empty : rest = []
    · simp [empty]
    · simp [empty]
  by_cases last : pattern.getLast? = some 42
  · obtain ⟨front, rfl⟩ := List.getLast?_eq_some_iff.mp last
    have nonempty : front ≠ [] := by
      rintro rfl
      exact first rfl
    have literals : (42 : UInt8) ∉ front := by
      intro mem
      have more := List.count_pos_iff.mpr mem
      exact single ⟨by rw [List.count_append, List.count_singleton_self]; omega, Or.inr last⟩
    have other : front.head? ≠ some 42 := by
      rwa [List.head?_append_of_ne_nil _ nonempty] at first
    rw [compile_trailing front other nonempty] at compiled
    cases compiled
    simp [matchesValues_iff, Glob.Matches.initial_iff literals, nonempty]
  · rw [compile, parseMatch, if_neg none, if_neg first, if_neg last] at compiled
    cases compiled

theorem Starred.not_matchesAsGlob (starred : Starred pattern) : ¬ MatchesAsGlob pattern := by
  intro agrees
  have bare : (42 : UInt8) ∉ pattern.filter fun c => decide (c ≠ 42) := by simp
  have stands (claim : Bytes) (role : Role) (rule : OAuthRule)
      (compiled : compile claim role pattern = .ok rule) :
      rule.matchesValues [pattern.filter fun c => decide (c ≠ 42)] = true :=
    (agrees claim role rule compiled _).mpr
      ⟨_, List.mem_singleton_self _, Glob.Matches.without_stars pattern⟩
  obtain ⟨several, ends⟩ := starred
  by_cases first : pattern.head? = some 42
  · obtain ⟨rest, rfl⟩ := List.head?_eq_some_iff.mp first
    have more : (42 : UInt8) ∈ rest := by
      rw [List.count_cons_self] at several
      exact List.count_pos_iff.mp (by omega)
    have matched := stands [] ⟨0, [], [], []⟩ _ (compile_leading rest)
    rw [matchesValues_iff] at matched
    obtain ⟨v, mem, matched⟩ := matched
    obtain rfl := List.mem_singleton.mp mem
    simp only [ne_eq, not_true_eq_false, false_and, false_or, true_and] at matched
    rcases matched with ⟨-, suffix⟩ | empty
    · exact bare (suffix.subset more)
    · rw [empty] at more
      cases more
  · obtain ⟨front, rfl⟩ := List.getLast?_eq_some_iff.mp (ends.resolve_left first)
    have more : (42 : UInt8) ∈ front := by
      rw [List.count_append, List.count_singleton_self] at several
      exact List.count_pos_iff.mp (by omega)
    have nonempty : front ≠ [] := List.ne_nil_of_mem more
    have other : front.head? ≠ some 42 := by
      rwa [List.head?_append_of_ne_nil _ nonempty] at first
    have matched := stands [] ⟨0, [], [], []⟩ _ (compile_trailing front other nonempty)
    rw [matchesValues_iff] at matched
    obtain ⟨v, mem, matched⟩ := matched
    obtain rfl := List.mem_singleton.mp mem
    simp only [ne_eq, not_true_eq_false, false_and, false_or, nonempty, and_false, or_false] at matched
    exact bare (matched.2.subset more)

end

/-- Patterns mean what they should, except those with a star at an end and further stars, which
stand for themselves. -/
theorem oauth_patterns_iff (pattern : Bytes) :
    (AcceptsWellFormed pattern ∧ (pattern ≠ [] → MatchesAsGlob pattern)) ↔ ¬ Starred pattern := by
  constructor
  · rintro ⟨accepts, -⟩
    exact acceptsWellFormed_iff.mp accepts
  · intro single
    exact ⟨acceptsWellFormed_iff.mpr single, fun present => matchesAsGlob_of_single present single⟩

/-- A pattern for everything with an a in it matches the texts that end with a and a star. -/
theorem middle_wildcard_accepted :
    (∃ rule, compile (ascii "groups") ⟨0, ascii "admin", [], []⟩ (ascii "*a*") = .ok rule ∧
      rule.matchesValues [ascii "xay"] = false ∧ rule.matchesValues [ascii "xa*"] = true) ∧
    Glob.Matches 42 (ascii "*a*") (ascii "xay") ∧
    ¬ AcceptsWellFormed (ascii "*a*") ∧ ¬ MatchesAsGlob (ascii "*a*") := by
  have starred : Starred (ascii "*a*") := ⟨by decide, by decide⟩
  refine ⟨⟨_, compile_leading (ascii "a*"), by decide, by decide⟩, ?_, ?_, starred.not_matchesAsGlob⟩
  · exact .any [120] (.literal (by decide) (.any [121] .nil))
  · intro accepts
    exact acceptsWellFormed_iff.mp accepts starred

end Tellstone.Rbac
