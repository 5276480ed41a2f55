import Mathlib.Data.List.Basic
import Tellstone.Lib.ByteStream

/-! The values of RESP2 and their bytes. A value is read in one way only, whatever stands
behind it, so that a stream of values never gets out of step. -/
namespace Resp2
open ByteStream

theorem digit_range {c : Char} (digit : c.isDigit = true) : 48 ≤ c.toNat ∧ c.toNat ≤ 57 := by
  simp only [Char.isDigit, Bool.and_eq_true, decide_eq_true_eq] at digit
  exact ⟨UInt32.le_iff_toNat_le.mp digit.1, UInt32.le_iff_toNat_le.mp digit.2⟩

theorem digit_byte {c : Char} (digit : c.isDigit = true) : c.toNat.toUInt8.toNat = c.toNat := by
  obtain ⟨-, high⟩ := digit_range digit
  rw [Nat.toUInt8, UInt8.toNat_ofNat']
  exact Nat.mod_eq_of_lt (by omega)

def digits (n : Nat) : Bytes := (Nat.toDigits 10 n).map fun c => c.toNat.toUInt8

theorem digits_range {n : Nat} {b : UInt8} (mem : b ∈ digits n) : 48 ≤ b ∧ b ≤ 57 := by
  obtain ⟨c, digit, rfl⟩ := List.mem_map.mp mem
  have isDigit := Nat.isDigit_of_mem_toDigits (by decide) (by decide) digit
  obtain ⟨low, high⟩ := digit_range isDigit
  simp only [UInt8.le_iff_toNat_le, digit_byte isDigit]
  exact ⟨low, high⟩

theorem digits_value (n : Nat) : (digits n).foldl (fun n b => 10 * n + (b.toNat - 48)) 0 = n := by
  have value : (digits n).foldl (fun n b => 10 * n + (b.toNat - 48)) 0 =
      Nat.ofDigitChars 10 (Nat.toDigits 10 n) 0 := by
    rw [digits, List.foldl_map, Nat.ofDigitChars]
    apply List.foldl_ext
    intro sum c mem
    rw [digit_byte (Nat.isDigit_of_mem_toDigits (by decide) (by decide) mem)]
    rfl
  rw [value, Nat.ofDigitChars_toDigits (by decide) (by decide)]

theorem digits_injective {m n : Nat} (same : digits m = digits n) : m = n := by
  rw [← digits_value m, same, digits_value]

def number (n : Int) : Bytes := (if n < 0 then [45] else []) ++ digits n.natAbs

theorem number_injective {m n : Int} (same : number m = number n) : m = n := by
  have unsigned (n : Nat) (rest : Bytes) : 45 :: rest ≠ digits n := by
    intro first
    have range := (digits_range (first ▸ List.mem_cons_self : (45 : UInt8) ∈ digits n)).1
    exact absurd range (by decide)
  simp only [number] at same
  by_cases left : m < 0
  · by_cases right : n < 0
    · rw [if_pos left, if_pos right] at same
      have := digits_injective (List.append_cancel_left same)
      omega
    · rw [if_pos left, if_neg right] at same
      exact absurd same (unsigned _ _)
  · by_cases right : n < 0
    · rw [if_neg left, if_pos right] at same
      exact absurd same.symm (unsigned _ _)
    · rw [if_neg left, if_neg right] at same
      have := digits_injective (List.append_cancel_left same)
      omega

def Plain (text : Bytes) : Prop := ∀ b ∈ text, b ≠ 13 ∧ b ≠ 10

instance (text : Bytes) : Decidable (Plain text) := List.decidableBAll _ text

theorem plain_nil : Plain [] := fun _ mem => absurd mem List.not_mem_nil

theorem plain_append {a b : Bytes} : Plain (a ++ b) ↔ Plain a ∧ Plain b := by
  simp only [Plain, List.forall_mem_append]

theorem plain_ascii {chars : List Char}
    (fine : (chars.all fun c => c.toNat < 256 && c.toNat != 13 && c.toNat != 10) = true) :
    Plain (ascii (String.ofList chars)) := by
  intro b mem
  rw [ascii, String.toList_ofList] at mem
  obtain ⟨c, char, rfl⟩ := List.mem_map.mp mem
  have checked := List.all_eq_true.mp fine c char
  simp only [Bool.and_eq_true, decide_eq_true_eq, bne_iff_ne] at checked
  obtain ⟨⟨small, cr⟩, lf⟩ := checked
  have value : c.toNat.toUInt8.toNat = c.toNat := by
    rw [Nat.toUInt8, UInt8.toNat_ofNat']
    exact Nat.mod_eq_of_lt small
  constructor
  · intro same
    rw [same] at value
    exact cr value.symm
  · intro same
    rw [same] at value
    exact lf value.symm

theorem plain_number (n : Int) : Plain (number n) := by
  intro b mem
  have range : b = 45 ∨ 48 ≤ b := by
    rcases List.mem_append.mp mem with sign | digit
    · left
      split at sign
      · exact List.mem_singleton.mp sign
      · cases sign
    · exact Or.inr (digits_range digit).1
  rcases range with rfl | low
  · decide
  · constructor
    · rintro rfl
      exact absurd low (by decide)
    · rintro rfl
      exact absurd low (by decide)

def line (text : Bytes) : Bytes := text ++ [13, 10]

theorem line_unique {a b : Bytes} (left : Plain a) (right : Plain b) {r s : Bytes}
    (same : line a ++ r = line b ++ s) : a = b ∧ r = s := by
  induction a generalizing b with
  | nil =>
    cases b with
    | nil => exact ⟨rfl, by simpa [line] using same⟩
    | cons y b =>
      simp only [line, List.nil_append, List.cons_append, List.cons.injEq] at same
      exact absurd same.1.symm (right y List.mem_cons_self).1
  | cons x a ih =>
    cases b with
    | nil =>
      simp only [line, List.nil_append, List.cons_append, List.cons.injEq] at same
      exact absurd same.1 (left x List.mem_cons_self).1
    | cons y b =>
      simp only [line, List.cons_append, List.cons.injEq] at same
      obtain ⟨rfl, rest⟩ := same
      obtain ⟨rfl, tail⟩ := ih (fun c mem => left c (List.mem_cons_of_mem _ mem))
        (fun c mem => right c (List.mem_cons_of_mem _ mem)) rest
      exact ⟨rfl, tail⟩

inductive Value where
  | simple (text : Bytes)
  | error (text : Bytes)
  | int (n : Int)
  | bulk (b : Bytes)
  | null
  | array (vs : List Value)

/-- Texts stand in one line each. -/
inductive Value.WellFormed : Value → Prop where
  | simple {text : Bytes} (plain : Plain text) : WellFormed (.simple text)
  | error {text : Bytes} (plain : Plain text) : WellFormed (.error text)
  | int (n : Int) : WellFormed (.int n)
  | bulk (b : Bytes) : WellFormed (.bulk b)
  | null : WellFormed .null
  | array {vs : List Value} (all : ∀ v ∈ vs, v.WellFormed) : WellFormed (.array vs)

mutual

def Value.encode : Value → Bytes
  | .simple text => 43 :: line text
  | .error text => 45 :: line text
  | .int n => 58 :: line (number n)
  | .bulk b => 36 :: (line (number b.length) ++ line b)
  | .null => 36 :: line (number (-1))
  | .array vs => 42 :: (line (number vs.length) ++ encodeAll vs)

def encodeAll : List Value → Bytes
  | [] => []
  | v :: vs => v.encode ++ encodeAll vs

end

theorem encodeAll_append (vs ws : List Value) :
    encodeAll (vs ++ ws) = encodeAll vs ++ encodeAll ws := by
  induction vs with
  | nil => simp [encodeAll]
  | cons v vs ih => simp [encodeAll, ih]

theorem encodeAll_unique_of {vs ws : List Value}
    (each : ∀ v ∈ vs, ∀ w r s, w.WellFormed → v.encode ++ r = w.encode ++ s → v = w ∧ r = s)
    (right : ∀ w ∈ ws, w.WellFormed) (count : vs.length = ws.length) {r s : Bytes}
    (same : encodeAll vs ++ r = encodeAll ws ++ s) : vs = ws ∧ r = s := by
  induction vs generalizing ws with
  | nil =>
    obtain rfl : ws = [] := List.eq_nil_of_length_eq_zero count.symm
    exact ⟨rfl, by simpa [encodeAll] using same⟩
  | cons v vs ih =>
    cases ws with
    | nil => cases count
    | cons w ws =>
      simp only [encodeAll, List.append_assoc] at same
      obtain ⟨rfl, rest⟩ := each v List.mem_cons_self w _ _ (right w List.mem_cons_self) same
      obtain ⟨rfl, tail⟩ := ih (fun v mem => each v (List.mem_cons_of_mem _ mem))
        (fun w mem => right w (List.mem_cons_of_mem _ mem)) (Nat.succ.inj count) rest
      exact ⟨rfl, tail⟩

theorem Value.encode_unique {v w : Value} (left : v.WellFormed) (right : w.WellFormed)
    {r s : Bytes} (same : v.encode ++ r = w.encode ++ s) : v = w ∧ r = s := by
  induction left generalizing w r s with
  | simple plain =>
    cases right <;> simp only [encode, List.cons_append, List.cons.injEq] at same
    case simple plain' =>
      obtain ⟨rfl, rest⟩ := line_unique plain plain' same.2
      exact ⟨rfl, rest⟩
    all_goals exact absurd same.1 (by decide)
  | error plain =>
    cases right <;> simp only [encode, List.cons_append, List.cons.injEq] at same
    case error plain' =>
      obtain ⟨rfl, rest⟩ := line_unique plain plain' same.2
      exact ⟨rfl, rest⟩
    all_goals exact absurd same.1 (by decide)
  | int n =>
    cases right <;> simp only [encode, List.cons_append, List.cons.injEq] at same
    case int n' =>
      obtain ⟨equal, rest⟩ := line_unique (plain_number n) (plain_number n') same.2
      rw [number_injective equal]
      exact ⟨rfl, rest⟩
    all_goals exact absurd same.1 (by decide)
  | bulk b =>
    cases right <;> simp only [encode, List.cons_append, List.cons.injEq] at same
    case bulk b' =>
      rw [List.append_assoc, List.append_assoc] at same
      obtain ⟨sizes, rest⟩ := line_unique (plain_number _) (plain_number _) same.2
      have length : b.length = b'.length := by exact_mod_cast number_injective sizes
      simp only [line, List.append_assoc] at rest
      obtain ⟨rfl, tail⟩ := List.append_inj rest length
      exact ⟨rfl, by simpa using tail⟩
    case null =>
      rw [List.append_assoc] at same
      obtain ⟨sizes, -⟩ := line_unique (plain_number _) (plain_number _) same.2
      have := number_injective sizes
      omega
    all_goals exact absurd same.1 (by decide)
  | null =>
    cases right <;> simp only [encode, List.cons_append, List.cons.injEq] at same
    case bulk b' =>
      rw [List.append_assoc] at same
      obtain ⟨sizes, -⟩ := line_unique (plain_number _) (plain_number _) same.2
      have := number_injective sizes
      omega
    case null =>
      exact ⟨rfl, (line_unique (plain_number _) (plain_number _) same.2).2⟩
    all_goals exact absurd same.1 (by decide)
  | array all ih =>
    cases right <;> simp only [encode, List.cons_append, List.cons.injEq] at same
    case array all' =>
      rw [List.append_assoc, List.append_assoc] at same
      obtain ⟨counts, rest⟩ := line_unique (plain_number _) (plain_number _) same.2
      have length : _ = _ := number_injective counts
      obtain ⟨rfl, tail⟩ := encodeAll_unique_of
        (fun v mem w r s fine => ih v mem fine) all' (by exact_mod_cast length) rest
      exact ⟨rfl, tail⟩
    all_goals exact absurd same.1 (by decide)

theorem Value.encode_ne_nil (v : Value) : v.encode ≠ [] := by
  cases v <;> simp [encode]

theorem encodeAll_unique {vs ws : List Value} (left : ∀ v ∈ vs, v.WellFormed)
    (right : ∀ w ∈ ws, w.WellFormed) (same : encodeAll vs = encodeAll ws) : vs = ws := by
  induction vs generalizing ws with
  | nil =>
    cases ws with
    | nil => rfl
    | cons w ws =>
      simp only [encodeAll] at same
      exact absurd (List.append_eq_nil_iff.mp same.symm).1 w.encode_ne_nil
  | cons v vs ih =>
    cases ws with
    | nil =>
      simp only [encodeAll] at same
      exact absurd (List.append_eq_nil_iff.mp same).1 v.encode_ne_nil
    | cons w ws =>
      simp only [encodeAll] at same
      obtain ⟨rfl, rest⟩ := Value.encode_unique (left v List.mem_cons_self)
        (right w List.mem_cons_self) same
      rw [ih (fun v mem => left v (List.mem_cons_of_mem _ mem))
        (fun w mem => right w (List.mem_cons_of_mem _ mem)) rest]

def header (n : Nat) : Bytes := 42 :: line (number n)

theorem Value.encode_array (vs : List Value) :
    (Value.array vs).encode = header vs.length ++ encodeAll vs := by
  rw [encode, header, List.cons_append]

theorem Value.eq_array {v : Value} (fine : v.WellFormed) {n : Nat} {ws : List Value}
    (all : ∀ w ∈ ws, w.WellFormed) (same : v.encode = header n ++ encodeAll ws) :
    n = ws.length := by
  cases fine <;> simp only [encode, header, List.cons_append, List.cons.injEq] at same
  case array vs each =>
    obtain ⟨counts, rest⟩ := line_unique (plain_number _) (plain_number _) same.2
    have length := number_injective counts
    rw [← encodeAll_unique each all rest]
    omega
  all_goals exact absurd same.1 (by decide)

def Adds (n : Nat) (a b : Bytes) : Prop :=
  ∃ vs : List Value, vs.length = n ∧ (∀ v ∈ vs, v.WellFormed) ∧ b = a ++ encodeAll vs

namespace Adds

variable {m n : Nat} {a b c : Bytes}

theorem refl (a : Bytes) : Adds 0 a a :=
  ⟨[], rfl, fun _ mem => absurd mem List.not_mem_nil, by rw [encodeAll, List.append_nil]⟩

theorem trans (first : Adds m a b) (second : Adds n b c) : Adds (m + n) a c := by
  obtain ⟨vs, count, fine, rfl⟩ := first
  obtain ⟨ws, count', fine', rfl⟩ := second
  refine ⟨vs ++ ws, by rw [List.length_append, count, count'], ?_, ?_⟩
  · exact List.forall_mem_append.mpr ⟨fine, fine'⟩
  · rw [encodeAll_append, List.append_assoc]

theorem behind (adds : Adds n [] b) (a : Bytes) : Adds n a (a ++ b) := by
  obtain ⟨vs, count, fine, rfl⟩ := adds
  exact ⟨vs, count, fine, rfl⟩

theorem value (adds : Adds n a b) {v : Value} (fine : v.WellFormed) :
    Adds (n + 1) a (b ++ v.encode) := by
  refine adds.trans ⟨[v], rfl, ?_, ?_⟩
  · exact List.forall_mem_singleton.mpr fine
  · rw [encodeAll, encodeAll, List.append_nil]

theorem array_iff (adds : Adds n (a ++ header m) b) : Adds 1 a b ↔ m = n := by
  obtain ⟨ws, rfl, fine, rfl⟩ := adds
  constructor
  · rintro ⟨vs, single, fine', same⟩
    obtain ⟨v, rfl⟩ := List.length_eq_one_iff.mp single
    rw [List.append_assoc] at same
    have one := List.append_cancel_left same
    rw [encodeAll, encodeAll, List.append_nil] at one
    exact Value.eq_array (fine' v List.mem_cons_self) fine one.symm
  · rintro rfl
    rw [List.append_assoc, ← Value.encode_array]
    exact (refl a).value (.array fine)

theorem array (adds : Adds n (a ++ header n) b) : Adds 1 a b := adds.array_iff.mpr rfl

theorem foldl {α : Type} {step : Bytes → α → Bytes} {count : α → Nat} {xs : List α}
    (each : ∀ x ∈ xs, ∀ out, Adds (count x) out (step out x)) (adds : Adds n a b) :
    Adds (xs.foldl (fun n x => n + count x) n) a (xs.foldl step b) := by
  induction xs generalizing n b with
  | nil => exact adds
  | cons x xs ih =>
    exact ih (fun y mem => each y (List.mem_cons_of_mem _ mem))
      (adds.trans (each x List.mem_cons_self b))

theorem foldl_const {α : Type} {step : Bytes → α → Bytes} {k : Nat} {xs : List α}
    (each : ∀ x ∈ xs, ∀ out, Adds k out (step out x)) (out : Bytes) :
    Adds (k * xs.length) out (xs.foldl step out) := by
  have added := foldl each (refl out)
  rwa [List.foldl_add_const, Nat.zero_add] at added

end Adds

end Resp2
