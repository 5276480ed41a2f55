import Mathlib.Data.List.Basic
import Mathlib.Data.Nat.Bitwise
import Tellstone.Rbac.Role

/-! What a list of role rules means: the denials are taken off at the end, wherever they stand. -/
namespace Tellstone.Rbac
open ByteStream

namespace Bitset

theorem bit_toNat (id : UInt16) : (bit id).toNat = 2 ^ (id.toNat % 64) := by
  have small : 2 ^ (id.toNat % 64) < 2 ^ 64 :=
    Nat.pow_lt_pow_right (by decide) (Nat.mod_lt _ (by decide))
  simp only [bit, UInt64.toNat_shiftLeft, UInt16.toNat_toUInt64, UInt16.toNat_mod]
  simpa [Nat.shiftLeft_eq] using Nat.mod_eq_of_lt small

theorem and_bit (w : UInt64) (id : UInt16) :
    w &&& bit id ≠ 0 ↔ w.toNat.testBit (id.toNat % 64) = true := by
  rw [ne_eq, ← UInt64.toNat_inj, UInt64.toNat_and, bit_toNat, Nat.and_two_pow]
  cases w.toNat.testBit (id.toNat % 64) <;> simp

theorem word_eq (id : UInt16) : word id = id.toNat / 64 := by
  simp [word]

theorem eq_of_place {id id' : UInt16} (words : word id = word id')
    (bits : id.toNat % 64 = id'.toNat % 64) : id = id' := by
  rw [word_eq, word_eq] at words
  apply UInt16.toNat_inj.mp
  omega

theorem has_eq (b : Bitset) (id : UInt16) :
    b.has id = (b.getD (word id) 0).toNat.testBit (id.toNat % 64) := by
  rw [has, List.getD_eq_getElem?_getD]
  cases b[word id]? with
  | none => simp
  | some w =>
    rw [Option.getD_some, Bool.eq_iff_iff, decide_eq_true_iff]
    exact and_bit w id

theorem getD_modify {i : Nat} (b : Bitset) (f : UInt64 → UInt64) (j : Nat) (inside : i < b.length) :
    (b.modify i f).getD j 0 = if i = j then f (b.getD j 0) else b.getD j 0 := by
  rw [List.getD_eq_getElem?_getD, List.getElem?_modify, List.getD_eq_getElem?_getD]
  split
  · rename_i same
    subst same
    rw [List.getElem?_eq_getElem inside]
    rfl
  · simp

theorem has_grow (b : Bitset) (n : Nat) (id : UInt16) :
    Bitset.has (b ++ List.replicate n 0) id = b.has id := by
  rw [has_eq, has_eq, List.getD_eq_getElem?_getD, List.getElem?_append,
    List.getD_eq_getElem?_getD]
  split
  · rfl
  · rename_i beyond
    rw [List.getElem?_eq_none (Nat.le_of_not_lt beyond), List.getElem?_replicate]
    split <;> rfl

theorem has_or {b : Bitset} (id id' : UInt16) (inside : word id < b.length) :
    Bitset.has (b.modify (word id) (· ||| bit id)) id' = (decide (id = id') || b.has id') := by
  rw [has_eq, getD_modify b _ _ inside, has_eq]
  by_cases words : word id = word id'
  · rw [if_pos words, UInt64.toNat_or, bit_toNat, Nat.testBit_or, Nat.testBit_two_pow, Bool.or_comm]
    congr 1
    exact decide_eq_decide.mpr ⟨eq_of_place words, fun same => same ▸ rfl⟩
  · have other : id ≠ id' := fun same => words (congrArg word same)
    rw [if_neg words, decide_eq_false other, Bool.false_or]

theorem has_set (b : Bitset) (id id' : UInt16) :
    (b.set id).has id' = (decide (id = id') || b.has id') := by
  simp only [set]
  split
  · rw [has_or id id' (by rw [List.length_append, List.length_replicate]; omega), has_grow]
  · rw [has_or id id' (by omega)]

theorem has_clear (b : Bitset) (id id' : UInt16) :
    (b.clear id).has id' = (b.has id' && !decide (id = id')) := by
  unfold clear
  by_cases inside : word id < b.length
  · rw [has_eq, getD_modify b _ _ inside, has_eq]
    by_cases words : word id = word id'
    · have place : id'.toNat % 64 < 64 := Nat.mod_lt _ (by decide)
      have turned : (~~~(bit id)).toNat = 2 ^ 64 - ((bit id).toNat + 1) := by
        rw [UInt64.toNat_not, Nat.add_comm, Nat.sub_add_eq]
        rfl
      rw [if_pos words, UInt64.toNat_and, Nat.testBit_and, turned,
        Nat.testBit_two_pow_sub_succ (bit id).toNat_lt, bit_toNat, Nat.testBit_two_pow,
        decide_eq_true place, Bool.true_and]
      congr 2
      exact decide_eq_decide.mpr ⟨eq_of_place words, fun same => same ▸ rfl⟩
    · have other : id ≠ id' := fun same => words (congrArg word same)
      rw [if_neg words, decide_eq_false other, Bool.not_false, Bool.and_true]
  · have beyond := Nat.le_of_not_lt inside
    rw [List.modify_eq_self beyond]
    by_cases same : id = id'
    · subst same
      simp [has, List.getElem?_eq_none beyond]
    · rw [decide_eq_false same, Bool.not_false, Bool.and_true]

theorem has_new (id : UInt16) : (new []).has id = false := by
  rw [has_eq, List.getD_eq_getElem?_getD, new, List.foldl_nil, List.getElem?_replicate]
  split <;> simp

theorem has_grants (cmds : List Cmd) (b : Bitset) (id : UInt16) :
    Bitset.has (cmds.foldl (fun perms cmd => perms.set cmd.id) b) id = true ↔
      (∃ cmd ∈ cmds, cmd.id = id) ∨ b.has id = true := by
  induction cmds generalizing b with
  | nil => simp
  | cons cmd cmds ih =>
    rw [List.foldl_cons, ih, has_set, Bool.or_eq_true, decide_eq_true_iff, ← or_assoc]
    simp [or_comm]

theorem has_denials (cmds : List Cmd) (b : Bitset) (id : UInt16) :
    Bitset.has (cmds.foldl (fun perms cmd => perms.clear cmd.id) b) id = true ↔
      b.has id = true ∧ ¬ ∃ cmd ∈ cmds, cmd.id = id := by
  induction cmds generalizing b with
  | nil => simp
  | cons cmd cmds ih =>
    rw [List.foldl_cons, ih, has_clear]
    simp [and_assoc]

end Bitset

def named : Bytes → Option (List Cmd)
  | 64 :: name => category (toLower name)
  | name => (lookupCommand name).map fun cmd => [cmd]

def behind (sign : UInt8) : Bytes → List Cmd
  | [] => []
  | first :: rest => if first = sign then (named rest).getD [] else []

def grantsOf : Bytes → List Cmd := behind 43

def deniesOf : Bytes → List Cmd := behind 45

def keysOf : Bytes → List Bytes
  | 126 :: rest => if rest = [42] then [] else [trimStar rest]
  | _ => []

def acceptable : Bytes → Bool
  | 43 :: rest => (named rest).isSome
  | 45 :: rest => (named rest).isSome
  | 126 :: rest => decide (rest = [42] ∨ trimStar rest ≠ [])
  | _ => false

def Draft.add (d : Draft) (rule : Bytes) : Draft where
  perms := (grantsOf rule).foldl (fun perms cmd => perms.set cmd.id) d.perms
  denies := d.denies ++ deniesOf rule
  namespaces := d.namespaces ++ keysOf rule

theorem named_command {rest : Bytes} (command : ¬ [64] <+: rest) :
    named rest = (lookupCommand rest).map fun cmd => [cmd] := by
  unfold named
  split
  · exact absurd (List.prefix_append _ _) command
  · rfl

theorem parseRule_eq (name : Bytes) (d : Draft) (rule : Bytes) :
    (parseRule name d rule).toOption = if acceptable rule then some (d.add rule) else none := by
  have plusAt : ascii "+@" = [43, 64] := rfl
  have minusAt : ascii "-@" = [45, 64] := rfl
  have plus : ascii "+" = [43] := rfl
  have minus : ascii "-" = [45] := rfl
  have tilde : ascii "~" = [126] := rfl
  have all : ascii "~*" = [126, 42] := rfl
  unfold parseRule
  rw [plusAt, minusAt, plus, minus, tilde, all]
  simp only [List.isPrefixOf_iff_prefix]
  cases rule with
  | nil => rfl
  | cons sign rest =>
    simp only [List.cons_prefix_cons, List.nil_prefix, and_true, List.drop_succ_cons, List.drop_zero]
    by_cases signed : sign = 43 ∨ sign = 45
    · by_cases group : [64] <+: rest
      · obtain ⟨word, rfl⟩ := group
        rcases signed with rfl | rfl <;> cases found : category (toLower word) <;>
          simp [categoryIDs, found, named, acceptable, Draft.add, grantsOf, deniesOf, behind, keysOf,
            Except.map, Except.toOption]
      · rcases signed with rfl | rfl <;> cases found : lookupCommand rest <;>
          simp [group, named_command group, found, acceptable, Draft.add, grantsOf, deniesOf,
            behind, keysOf, Except.toOption]
    obtain ⟨grants, denies⟩ := not_or.mp signed
    by_cases keys : sign = 126
    · subst keys
      by_cases all : rest = [42]
      · simp [all, acceptable, Draft.add, grantsOf, deniesOf, behind, keysOf, Except.toOption]
      · by_cases blank : trimStar rest = [] <;>
          simp [all, blank, acceptable, Draft.add, grantsOf, deniesOf, behind, keysOf, Except.toOption]
    · simp [Ne.symm grants, Ne.symm denies, Ne.symm keys, grants, denies, keys, acceptable,
        Except.toOption]

theorem toOption_bind {α β ε : Type} (x : Except ε α) (f : α → Except ε β) :
    (x >>= f).toOption = x.toOption.bind fun a => (f a).toOption := by
  cases x <;> rfl

theorem foldlM_parseRule (name : Bytes) (d : Draft) (rules : List Bytes) :
    (rules.foldlM (parseRule name) d).toOption =
      if rules.all acceptable then some (rules.foldl Draft.add d) else none := by
  induction rules generalizing d with
  | nil => rfl
  | cons rule rules ih =>
    rw [List.foldlM_cons, toOption_bind, parseRule_eq, List.all_cons, List.foldl_cons]
    cases read : acceptable rule with
    | false => rfl
    | true => simpa using ih (d.add rule)

theorem foldl_add (rules : List Bytes) (d : Draft) :
    rules.foldl Draft.add d =
      { perms := (rules.flatMap grantsOf).foldl (fun perms cmd => perms.set cmd.id) d.perms
        denies := d.denies ++ rules.flatMap deniesOf
        namespaces := d.namespaces ++ rules.flatMap keysOf } := by
  induction rules generalizing d with
  | nil => simp
  | cons rule rules ih =>
    rw [List.foldl_cons, ih]
    simp [Draft.add]

def roleOf (address : Nat) (name : Bytes) (rules : List Bytes) : Role where
  address := address
  name := name
  permissions := (rules.flatMap deniesOf).foldl (fun perms cmd => perms.clear cmd.id)
    ((rules.flatMap grantsOf).foldl (fun perms cmd => perms.set cmd.id) (Bitset.new []))
  namespaces := rules.flatMap keysOf

theorem parseRole_ok_iff {address : Nat} {name : Bytes} {rules : List Bytes} {role : Role} :
    parseRole address name rules = .ok role ↔
      rules ≠ [] ∧ (∀ rule ∈ rules, acceptable rule = true) ∧ role = roleOf address name rules := by
  have read := foldlM_parseRule name ⟨Bitset.new [], [], []⟩ rules
  rw [foldl_add, List.nil_append, List.nil_append] at read
  unfold parseRole
  by_cases none : rules = []
  · simp [none]
  rw [if_neg (mt List.length_eq_zero_iff.mp none)]
  cases accepted : rules.all acceptable with
  | false =>
    rw [accepted, if_neg Bool.false_ne_true] at read
    cases parsed : rules.foldlM (parseRule name) ⟨Bitset.new [], [], []⟩ with
    | ok d => simp [parsed, Except.toOption] at read
    | error err =>
      have refused : ¬ ∀ rule ∈ rules, acceptable rule = true := by
        rw [← List.all_eq_true, accepted]
        exact Bool.false_ne_true
      simp [Except.map, refused]
  | true =>
    rw [accepted, if_pos rfl] at read
    cases parsed : rules.foldlM (parseRule name) ⟨Bitset.new [], [], []⟩ with
    | error err => simp [parsed, Except.toOption] at read
    | ok d =>
      rw [parsed] at read
      obtain rfl := Option.some.inj read
      constructor
      · intro made
        cases made
        exact ⟨none, List.all_eq_true.mp accepted, rfl⟩
      · rintro ⟨-, -, rfl⟩
        rfl

def Covers (sign rule : Bytes) (id : UInt16) : Prop :=
  ∃ rest cmds, rule = sign ++ rest ∧ named rest = some cmds ∧ ∃ cmd ∈ cmds, cmd.id = id

theorem covers_iff {sign : UInt8} {rule : Bytes} {id : UInt16} :
    Covers [sign] rule id ↔ ∃ cmd ∈ behind sign rule, cmd.id = id := by
  constructor
  · rintro ⟨rest, cmds, rfl, found, mem⟩
    rwa [List.singleton_append, behind, if_pos rfl, found, Option.getD_some]
  · rintro ⟨cmd, mem, same⟩
    cases rule with
    | nil => cases mem
    | cons first rest =>
      rw [behind] at mem
      split at mem
      · rename_i signed
        subst signed
        cases found : named rest with
        | none => simp [found] at mem
        | some cmds =>
          rw [found] at mem
          exact ⟨rest, cmds, rfl, found, cmd, mem, same⟩
      · cases mem

theorem roleOf_has (address : Nat) (name : Bytes) (rules : List Bytes) (id : UInt16) :
    (roleOf address name rules).permissions.has id = true ↔
      (∃ rule ∈ rules, Covers (ascii "+") rule id) ∧
        ¬ ∃ rule ∈ rules, Covers (ascii "-") rule id := by
  have plus : ascii "+" = [43] := rfl
  have minus : ascii "-" = [45] := rfl
  rw [roleOf, Bitset.has_denials, Bitset.has_grants, Bitset.has_new, plus, minus]
  simp only [covers_iff, grantsOf, deniesOf, List.mem_flatMap, Bool.false_eq_true, or_false]
  constructor
  · rintro ⟨⟨cmd, ⟨rule, mem, grants⟩, same⟩, denied⟩
    refine ⟨⟨rule, mem, cmd, grants, same⟩, ?_⟩
    rintro ⟨rule', mem', cmd', denies, same'⟩
    exact denied ⟨cmd', ⟨rule', mem', denies⟩, same'⟩
  · rintro ⟨⟨rule, mem, cmd, grants, same⟩, denied⟩
    refine ⟨⟨cmd, ⟨rule, mem, grants⟩, same⟩, ?_⟩
    rintro ⟨cmd', ⟨rule', mem', denies⟩, same'⟩
    exact denied ⟨rule', mem', cmd', denies, same'⟩

theorem allowsKey_iff (role : Role) (key : Bytes) :
    role.allowsKey key = true ↔
      (∃ start ∈ role.namespaces, start <+: key) ∨ role.namespaces = [] := by
  simp [Role.allowsKey]

theorem roleOf_perm {rules rules' : List Bytes} (perm : rules'.Perm rules) (address : Nat)
    (name : Bytes) :
    (∀ id, (roleOf address name rules').permissions.has id =
      (roleOf address name rules).permissions.has id) ∧
    ∀ key, (roleOf address name rules').allowsKey key =
      (roleOf address name rules).allowsKey key := by
  constructor
  · intro id
    rw [Bool.eq_iff_iff, roleOf_has, roleOf_has]
    simp only [perm.mem_iff]
  · intro key
    have starts : (rules'.flatMap keysOf).Perm (rules.flatMap keysOf) := perm.flatMap_right _
    rw [Bool.eq_iff_iff, allowsKey_iff, allowsKey_iff]
    simp only [roleOf, starts.mem_iff]
    rw [← List.length_eq_zero_iff, starts.length_eq, List.length_eq_zero_iff]

/-- A command is permitted when a rule grants it and none denies it, in any order. -/
theorem denials_win {address : Nat} {name : Bytes} {rules : List Bytes} {role : Role}
    (accepted : parseRole address name rules = .ok role) :
    (∀ id, role.permissions.has id = true ↔
      (∃ rule ∈ rules, Covers (ascii "+") rule id) ∧
        ¬ ∃ rule ∈ rules, Covers (ascii "-") rule id) ∧
    ∀ rules', rules'.Perm rules → ∃ role', parseRole address name rules' = .ok role' ∧
      (∀ id, role'.permissions.has id = role.permissions.has id) ∧
      ∀ key, role'.allowsKey key = role.allowsKey key := by
  obtain ⟨some, all, rfl⟩ := parseRole_ok_iff.mp accepted
  refine ⟨roleOf_has address name rules, ?_⟩
  intro rules' perm
  refine ⟨roleOf address name rules', parseRole_ok_iff.mpr ⟨?_, ?_, rfl⟩,
    roleOf_perm perm address name⟩
  · rintro rfl
    exact some perm.nil_eq.symm
  · intro rule mem
    exact all rule (perm.mem_iff.mp mem)

theorem denials_win_get :
    let rules := [ascii "-get", ascii "+@read", ascii "~a"]
    ∃ role, parseRole 0 (ascii "r") rules = .ok role ∧
      (∀ id, role.permissions.has id = true ↔
        (∃ rule ∈ rules, Covers (ascii "+") rule id) ∧
          ¬ ∃ rule ∈ rules, Covers (ascii "-") rule id) ∧
      ∀ rules', rules'.Perm rules → ∃ role', parseRole 0 (ascii "r") rules' = .ok role' ∧
        (∀ id, role'.permissions.has id = role.permissions.has id) ∧
        ∀ key, role'.allowsKey key = role.allowsKey key :=
  ⟨⟨0, ascii "r", [512], [ascii "a"]⟩, by decide, denials_win (by decide)⟩

def KeyAllowed (rules : List Bytes) (key : Bytes) : Prop :=
  (∀ rule ∈ rules, ¬ ascii "~" <+: rule) ∨ ascii "~*" ∈ rules ∨
    ∃ start, start <+: key ∧ (ascii "~" ++ start ∈ rules ∨ ascii "~" ++ start ++ ascii "*" ∈ rules)

def Listed (rules : List Bytes) (key : Bytes) : Prop :=
  ∃ rule ∈ rules, rule ≠ ascii "~*" ∧ ∃ start, start <+: key ∧
    (rule = ascii "~" ++ start ∨ rule = ascii "~" ++ start ++ ascii "*")

theorem trimStar_initial (s : Bytes) : trimStar s <+: s := by
  unfold trimStar
  split
  · exact List.dropLast_prefix s
  · exact List.prefix_rfl

theorem trimStar_cases (s : Bytes) : s = trimStar s ∨ s = trimStar s ++ [42] := by
  unfold trimStar
  split
  · rename_i star
    exact Or.inr (List.dropLast_append_getLast? _ star).symm
  · exact Or.inl rfl

theorem trimStar_append (s : Bytes) : trimStar (s ++ [42]) = s := by
  simp [trimStar]

section
variable {rules : List Bytes} {key : Bytes}

theorem listed_iff : (∃ start ∈ rules.flatMap keysOf, start <+: key) ↔ Listed rules key := by
  constructor
  · rintro ⟨start, kept, matched⟩
    obtain ⟨rule, mem, source⟩ := List.mem_flatMap.mp kept
    unfold keysOf at source
    split at source
    · rename_i rest
      split at source
      · cases source
      · rename_i narrow
        obtain rfl := List.mem_singleton.mp source
        refine ⟨_, mem, fun all => narrow (List.cons.inj all).2, trimStar rest, matched, ?_⟩
        rcases trimStar_cases rest with same | star
        · exact Or.inl (congrArg (List.cons 126) same)
        · exact Or.inr (congrArg (List.cons 126) star)
    · cases source
  · rintro ⟨rule, mem, narrow, start, matched, rfl | rfl⟩
    · have other : start ≠ [42] := fun all => narrow (congrArg (List.cons 126) all)
      refine ⟨trimStar start, List.mem_flatMap.mpr ⟨_, mem, ?_⟩,
        (trimStar_initial start).trans matched⟩
      change trimStar start ∈ if start = [42] then [] else [trimStar start]
      rw [if_neg other]
      exact List.mem_singleton_self _
    · have other : start ++ [42] ≠ [42] := fun all => narrow (congrArg (List.cons 126) all)
      refine ⟨start, List.mem_flatMap.mpr ⟨_, mem, ?_⟩, matched⟩
      change start ∈ if start ++ [42] = [42] then [] else [trimStar (start ++ [42])]
      rw [if_neg other, trimStar_append]
      exact List.mem_singleton_self _

theorem keys_nil_iff : rules.flatMap keysOf = [] ↔
    ∀ rule ∈ rules, ascii "~" <+: rule → rule = ascii "~*" := by
  have tilde : ascii "~" = [126] := rfl
  have all : ascii "~*" = [126, 42] := rfl
  rw [List.flatMap_eq_nil_iff, tilde, all]
  constructor
  · rintro none rule mem ⟨rest, rfl⟩
    have empty := none _ mem
    by_cases star : rest = [42]
    · rw [star]
      rfl
    · change (if rest = [42] then [] else [trimStar rest]) = [] at empty
      rw [if_neg star] at empty
      cases empty
  · intro only rule mem
    unfold keysOf
    split
    · rename_i rest
      have star := only _ mem (List.prefix_append [126] rest)
      exact if_pos (List.cons.inj star).2
    · rfl

theorem keyAllowed_iff : KeyAllowed rules key ↔
    (∀ rule ∈ rules, ¬ ascii "~" <+: rule) ∨ ascii "~*" ∈ rules ∨ Listed rules key := by
  constructor
  · rintro (none | all | ⟨start, matched, mem⟩)
    · exact Or.inl none
    · exact Or.inr (Or.inl all)
    · by_cases all : ascii "~*" ∈ rules
      · exact Or.inr (Or.inl all)
      · refine Or.inr (Or.inr ?_)
        rcases mem with mem | mem
        · exact ⟨_, mem, fun star => all (star ▸ mem), start, matched, Or.inl rfl⟩
        · exact ⟨_, mem, fun star => all (star ▸ mem), start, matched, Or.inr rfl⟩
  · rintro (none | all | ⟨rule, mem, -, start, matched, rfl | rfl⟩)
    · exact Or.inl none
    · exact Or.inr (Or.inl all)
    · exact Or.inr (Or.inr ⟨start, matched, Or.inl mem⟩)
    · exact Or.inr (Or.inr ⟨start, matched, Or.inr mem⟩)

/-- Key patterns mean what they say, unless the rule for all keys stands beside narrower ones of
which none lists the key. -/
theorem key_patterns_iff {address : Nat} {name : Bytes} {role : Role}
    (accepted : parseRole address name rules = .ok role) :
    (role.allowsKey key = true ↔ KeyAllowed rules key) ↔
      (ascii "~*" ∈ rules →
        (∀ rule ∈ rules, ascii "~" <+: rule → rule = ascii "~*") ∨ Listed rules key) := by
  obtain ⟨-, -, rfl⟩ := parseRole_ok_iff.mp accepted
  have allows : (roleOf address name rules).allowsKey key = true ↔
      Listed rules key ∨ ∀ rule ∈ rules, ascii "~" <+: rule → rule = ascii "~*" := by
    rw [allowsKey_iff, ← keys_nil_iff, ← listed_iff]
    rfl
  rw [allows, keyAllowed_iff]
  constructor
  · intro agree all
    exact (agree.mpr (Or.inr (Or.inl all))).symm
  · intro beside
    constructor
    · rintro (listed | only)
      · exact Or.inr (Or.inr listed)
      · by_cases all : ascii "~*" ∈ rules
        · exact Or.inr (Or.inl all)
        · exact Or.inl fun rule mem keys => all (only rule mem keys ▸ mem)
    · rintro (none | all | listed)
      · exact Or.inr fun rule mem keys => absurd keys (none rule mem)
      · exact (beside all).symm
      · exact Or.inl listed

end

theorem key_patterns_iff_beside :
    ∃ role, parseRole 0 (ascii "r") [ascii "~*", ascii "~a"] = .ok role ∧
      ((role.allowsKey (ascii "ab") = true ↔ KeyAllowed [ascii "~*", ascii "~a"] (ascii "ab")) ↔
        (ascii "~*" ∈ [ascii "~*", ascii "~a"] →
          (∀ rule ∈ [ascii "~*", ascii "~a"], ascii "~" <+: rule → rule = ascii "~*") ∨
            Listed [ascii "~*", ascii "~a"] (ascii "ab"))) :=
  ⟨⟨0, ascii "r", [0], [ascii "a"]⟩, by decide,
    @key_patterns_iff _ _ 0 (ascii "r") _ (by decide)⟩

theorem all_keys_rule_lost :
    ∃ role, parseRole 0 (ascii "r") [ascii "~*", ascii "~a"] = .ok role ∧
      role.allowsKey (ascii "b") = false ∧ KeyAllowed [ascii "~*", ascii "~a"] (ascii "b") :=
  ⟨⟨0, ascii "r", [0], [ascii "a"]⟩, by decide, by decide, Or.inr (Or.inl (by decide))⟩

end Tellstone.Rbac
