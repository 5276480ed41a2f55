import Mathlib.Data.List.Infix
import Tellstone.Command
import Tellstone.Lib.Utf8
import Tellstone.Texts

/-! Byte sizes on the command line. The product of number and unit is formed in 64 bits
before it is compared with the largest size. -/
namespace Tellstone.Config
open ByteStream

def normalized (s : Bytes) : Bytes := Utf8.trimSpace (Rbac.toUpper s)

inductive NumError where
  | invalidSyntax
  | outOfRange
  deriving DecidableEq, Repr

def parseUint (s : Bytes) : Except NumError Nat :=
  if s = [] then .error .invalidSyntax
  else
    match Command.digits s with
    | none => .error .invalidSyntax
    | some n => if n < 2 ^ 64 then .ok n else .error .outOfRange

abbrev ByteSize := UInt32

inductive SizeError where
  | empty
  | invalid (number : Bytes) (cause : NumError)
  | overflows (number : Bytes)
  deriving DecidableEq, Repr

def NumError.text : NumError → Bytes
  | invalidSyntax => ascii "invalid syntax"
  | outOfRange => ascii "value out of range"

def SizeError.text (pl : Platform) : SizeError → Bytes
  | empty => ascii "empty size value"
  | invalid number cause =>
    ascii "invalid size " ++ pl.quote number ++ ascii ": strconv.ParseUint: parsing " ++
      pl.quote number ++ ascii ": " ++ cause.text
  | overflows number => ascii "size " ++ pl.quote number ++ ascii " overflows uint32"

def units : List (Bytes × Nat) :=
  [(ascii "KIB", 2 ^ 10), (ascii "MIB", 2 ^ 20), (ascii "GIB", 2 ^ 30), (ascii "KB", 1000),
    (ascii "MB", 1000 * 1000), (ascii "GB", 1000 * 1000 * 1000)]

def splitUnit (s : Bytes) : Bytes × Nat :=
  match units.find? fun unit => unit.1.isSuffixOf s with
  | some unit => (s.take (s.length - unit.1.length), unit.2)
  | none => (s, 1)

namespace ByteSize

def set (b : ByteSize) (s : Bytes) : ByteSize × Option SizeError :=
  let s := normalized s
  if s = [] then (b, some .empty)
  else
    let (number, mul) := splitUnit s
    match parseUint number with
    | .error cause => (b, some (.invalid number cause))
    | .ok v =>
      let v := v * mul % 2 ^ 64
      if 2 ^ 32 ≤ v then (b, some (.overflows number)) else (UInt32.ofNat v, none)

end ByteSize

def Reads (text : Bytes) (v mul : Nat) : Prop :=
  ∃ number unit, (unit, mul) ∈ ([], 1) :: units ∧ text = number ++ unit ∧ number ≠ [] ∧
    Command.digits number = some v

theorem digit_of_digits {s : Bytes} {v : Nat} (read : Command.digits s = some v) {b : UInt8}
    (mem : b ∈ s) : 48 ≤ b ∧ b ≤ 57 := by
  unfold Command.digits at read
  split at read
  · rename_i all
    exact of_decide_eq_true (List.all_eq_true.mp all b mem)
  · cases read

theorem unit_of_suffix {number unit : Bytes} {mul v : Nat} (listed : (unit, mul) ∈ ([], 1) :: units)
    (read : Command.digits number = some v) {other : Bytes × Nat} (known : other ∈ units)
    (ends : other.1 <:+ number ++ unit) : other = (unit, mul) := by
  rcases List.mem_cons.mp listed with none | some
  · cases none
    rw [List.append_nil] at ends
    have lettered : ∀ u ∈ units, (66 : UInt8) ∈ u.1 := by decide
    have digit := digit_of_digits read (ends.subset (lettered other known))
    exact absurd digit.2 (by decide)
  · have apart : ∀ u ∈ units, ∀ u' ∈ units, u.1 <:+ u'.1 → u = u' := by decide
    rcases List.suffix_or_suffix_of_suffix ends (List.suffix_append number unit) with shorter | longer
    · exact apart _ known _ some shorter
    · exact (apart _ some _ known longer).symm

theorem splitUnit_reads {number unit : Bytes} {mul v : Nat}
    (listed : (unit, mul) ∈ ([], 1) :: units) (read : Command.digits number = some v) :
    splitUnit (number ++ unit) = (number, mul) := by
  unfold splitUnit
  split
  · rename_i other found
    have ends := List.find?_some found
    rw [List.isSuffixOf_iff_suffix] at ends
    obtain rfl := unit_of_suffix listed read (List.mem_of_find?_eq_some found) ends
    rw [List.length_append, Nat.add_sub_cancel, List.take_left]
  · rename_i none
    rcases List.mem_cons.mp listed with plain | known
    · cases plain
      rw [List.append_nil]
    · have missing := List.find?_eq_none.mp none _ known
      rw [List.isSuffixOf_iff_suffix] at missing
      exact absurd (List.suffix_append number unit) missing

theorem splitUnit_parts (text : Bytes) : ∃ unit, (unit, (splitUnit text).2) ∈ ([], 1) :: units ∧
    text = (splitUnit text).1 ++ unit := by
  unfold splitUnit
  split
  · rename_i unit found
    have ends := List.find?_some found
    rw [List.isSuffixOf_iff_suffix] at ends
    obtain ⟨number, rfl⟩ := ends
    refine ⟨unit.1, List.mem_cons_of_mem _ (List.mem_of_find?_eq_some found), ?_⟩
    rw [List.length_append, Nat.add_sub_cancel, List.take_left]
  · exact ⟨[], List.mem_cons_self, (List.append_nil text).symm⟩

theorem reads_iff {text : Bytes} {v mul : Nat} : Reads text v mul ↔
    (splitUnit text).2 = mul ∧ (splitUnit text).1 ≠ [] ∧
      Command.digits (splitUnit text).1 = some v := by
  constructor
  · rintro ⟨number, unit, listed, rfl, present, read⟩
    rw [splitUnit_reads listed read]
    exact ⟨rfl, present, read⟩
  · rintro ⟨rfl, present, read⟩
    obtain ⟨unit, listed, parts⟩ := splitUnit_parts text
    exact ⟨_, unit, listed, parts, present, read⟩

namespace ByteSize

/-- Sizes that fit are stored as they are; everything else is refused and changes nothing. -/
def Exact (b : ByteSize) (s : Bytes) : Prop :=
  (∀ v mul, Reads (normalized s) v mul → v * mul < 2 ^ 32 →
    b.set s = (UInt32.ofNat (v * mul), none)) ∧
  ((¬ ∃ v mul, Reads (normalized s) v mul ∧ v * mul < 2 ^ 32) →
    (b.set s).1 = b ∧ (b.set s).2 ≠ none)

/-- A number of 64 bits whose product with its unit is too large, but comes out small. -/
def WrapsAround (s : Bytes) : Prop :=
  ∃ v mul, Reads (normalized s) v mul ∧ v < 2 ^ 64 ∧ 2 ^ 32 ≤ v * mul ∧ v * mul % 2 ^ 64 < 2 ^ 32

variable {b : ByteSize} {s : Bytes}

theorem normalized_ne_nil {v mul : Nat} (read : Reads (normalized s) v mul) : normalized s ≠ [] := by
  obtain ⟨number, unit, -, parts, present, -⟩ := read
  rw [parts]
  exact List.append_ne_nil_of_left_ne_nil present unit

theorem set_of_reads {v mul : Nat} (read : Reads (normalized s) v mul) (small : v < 2 ^ 64) :
    b.set s = if 2 ^ 32 ≤ v * mul % 2 ^ 64 then (b, some (.overflows (splitUnit (normalized s)).1))
      else (UInt32.ofNat (v * mul % 2 ^ 64), none) := by
  have nonempty := normalized_ne_nil read
  obtain ⟨rfl, present, digits⟩ := reads_iff.mp read
  simp only [set, if_neg nonempty, parseUint, if_neg present, digits, if_pos small]

theorem set_refused (none : ∀ v mul, Reads (normalized s) v mul → 2 ^ 64 ≤ v) :
    (b.set s).1 = b ∧ (b.set s).2 ≠ .none := by
  unfold set
  by_cases empty : normalized s = []
  · simp [empty]
  simp only [if_neg empty, parseUint]
  by_cases missing : (splitUnit (normalized s)).1 = []
  · simp [missing]
  rw [if_neg missing]
  cases digits : Command.digits (splitUnit (normalized s)).1 with
  | none => simp
  | some v =>
    have large := none v _ (reads_iff.mpr ⟨rfl, missing, digits⟩)
    dsimp only
    rw [if_neg (Nat.not_lt.mpr large)]
    exact ⟨rfl, Option.some_ne_none _⟩

theorem mul_pos_of_reads {v mul : Nat} (read : Reads (normalized s) v mul) : 0 < mul := by
  obtain ⟨-, unit, listed, -⟩ := read
  have positive : ∀ u ∈ ([], 1) :: units, 0 < u.2 := by decide
  exact positive _ listed

theorem WrapsAround.not_exact (wraps : WrapsAround s) : ¬ b.Exact s := by
  rintro ⟨-, refused⟩
  obtain ⟨v, mul, read, small, large, low⟩ := wraps
  have unread : ¬ ∃ v mul, Reads (normalized s) v mul ∧ v * mul < 2 ^ 32 := by
    rintro ⟨v', mul', read', fits⟩
    obtain ⟨rfl, -, digits⟩ := reads_iff.mp read
    obtain ⟨rfl, -, digits'⟩ := reads_iff.mp read'
    obtain rfl := Option.some.inj (digits.symm.trans digits')
    omega
  have error := (refused unread).2
  rw [set_of_reads read small, if_neg (Nat.not_le.mpr low)] at error
  exact error rfl

/-- A size is exact or refused unless the product wraps around. -/
theorem set_exact_iff (b : ByteSize) (s : Bytes) : b.Exact s ↔ ¬ WrapsAround s := by
  constructor
  · intro exact wraps
    exact wraps.not_exact exact
  · intro straight
    constructor
    · intro v mul read fits
      have below : v ≤ v * mul := Nat.le_mul_of_pos_right v (mul_pos_of_reads read)
      have same : v * mul % 2 ^ 64 = v * mul := Nat.mod_eq_of_lt (by omega)
      rw [set_of_reads read (by omega), same, if_neg (Nat.not_le.mpr fits)]
    · intro unread
      by_cases known : ∃ v mul, Reads (normalized s) v mul ∧ v < 2 ^ 64
      · obtain ⟨v, mul, read, small⟩ := known
        have large : 2 ^ 32 ≤ v * mul := by
          by_contra fits
          exact unread ⟨v, mul, read, Nat.not_le.mp fits⟩
        have high : 2 ^ 32 ≤ v * mul % 2 ^ 64 := by
          by_contra low
          exact straight ⟨v, mul, read, small, large, Nat.not_le.mp low⟩
        rw [set_of_reads read small, if_pos high]
        exact ⟨rfl, Option.some_ne_none _⟩
      · apply set_refused
        intro v mul read
        by_contra small
        exact known ⟨v, mul, read, Nat.not_le.mp small⟩

theorem wrapped_size_accepted :
    set 7 (ascii "17179869184GiB") = (0, none) ∧ ¬ Exact 7 (ascii "17179869184GiB") := by
  refine ⟨by decide, WrapsAround.not_exact ⟨2 ^ 34, 2 ^ 30, ?_, by decide, by decide, by decide⟩⟩
  exact ⟨ascii "17179869184", ascii "GIB", by decide, by decide, by decide, by decide⟩

end ByteSize

end Tellstone.Config
