import Mathlib.Data.List.Basic
import Tellstone.Lib.ByteStream

/-! Base64 in the alphabet for URLs and without padding, as a decoder reads it that passes over
line ends and does not look at the bits left over. -/
namespace Base64
open ByteStream

def urlValue (b : UInt8) : Option Nat :=
  if 65 ≤ b ∧ b ≤ 90 then some (b.toNat - 65)
  else if 97 ≤ b ∧ b ≤ 122 then some (b.toNat - 97 + 26)
  else if 48 ≤ b ∧ b ≤ 57 then some (b.toNat - 48 + 52)
  else if b = 45 then some 62
  else if b = 95 then some 63
  else none

def lineEnd (b : UInt8) : Bool := decide (b = 10 ∨ b = 13)

def values : Bytes → Option (List Nat)
  | [] => some []
  | b :: rest =>
    if lineEnd b then values rest
    else
      match urlValue b, values rest with
      | some v, some vs => some (v :: vs)
      | _, _ => none

/-- Four symbols are three bytes; at the end two symbols are one and three are two. -/
def assemble : List Nat → Option Bytes
  | a :: b :: c :: d :: rest =>
    (assemble rest).map fun bytes =>
      UInt8.ofNat (a * 4 + b / 16) :: UInt8.ofNat (b % 16 * 16 + c / 4) ::
        UInt8.ofNat (c % 4 * 64 + d) :: bytes
  | [a, b, c] => some [UInt8.ofNat (a * 4 + b / 16), UInt8.ofNat (b % 16 * 16 + c / 4)]
  | [a, b] => some [UInt8.ofNat (a * 4 + b / 16)]
  | [_] => none
  | [] => some []

def decodeRawUrl (s : Bytes) : Option Bytes := (values s).bind assemble

/-- Nothing but symbols and line ends, and no symbol on its own at the end. -/
structure RawUrl (s : Bytes) : Prop where
  symbols : ∀ b ∈ s, lineEnd b = true ∨ (urlValue b).isSome = true
  grouped : s.countP (fun b => !lineEnd b) % 4 ≠ 1

theorem assemble_isSome (vs : List Nat) : (assemble vs).isSome = true ↔ vs.length % 4 ≠ 1 := by
  fun_induction assemble vs with
  | case1 a b c d rest ih =>
    rw [Option.isSome_map, ih]
    simp only [List.length_cons]
    omega
  | case2 a b c => simp
  | case3 a b => simp
  | case4 a => simp
  | case5 => simp

theorem values_isSome_iff (s : Bytes) : (values s).isSome = true ↔
    ∀ b ∈ s, lineEnd b = true ∨ (urlValue b).isSome = true := by
  induction s with
  | nil => simp [values]
  | cons b rest ih =>
    rw [List.forall_mem_cons, ← ih, values]
    by_cases ends : lineEnd b = true
    · simp [ends]
    · rw [if_neg ends]
      cases urlValue b with
      | none => simp [ends]
      | some v => cases values rest <;> simp [ends]

theorem values_length {s : Bytes} {vs : List Nat} (read : values s = some vs) :
    vs.length = s.countP fun b => !lineEnd b := by
  induction s generalizing vs with
  | nil =>
    cases read
    rfl
  | cons b rest ih =>
    rw [values] at read
    by_cases ends : lineEnd b = true
    · rw [if_pos ends] at read
      rw [ih read, List.countP_cons_of_neg (by simp [ends])]
    · rw [if_neg ends] at read
      split at read
      · rename_i v ws value others
        cases read
        rw [List.length_cons, ih others, List.countP_cons_of_pos (by simp [ends])]
      · cases read

theorem decodeRawUrl_isSome_iff (s : Bytes) : (decodeRawUrl s).isSome = true ↔ RawUrl s := by
  constructor
  · intro decoded
    rw [decodeRawUrl] at decoded
    cases read : values s with
    | none => simp [read] at decoded
    | some vs =>
      rw [read, Option.bind_some, assemble_isSome, values_length read] at decoded
      exact ⟨(values_isSome_iff s).mp (by rw [read]; rfl), decoded⟩
  · rintro ⟨symbols, grouped⟩
    obtain ⟨vs, read⟩ := Option.isSome_iff_exists.mp ((values_isSome_iff s).mpr symbols)
    rw [decodeRawUrl, read, Option.bind_some, assemble_isSome, values_length read]
    exact grouped

end Base64
