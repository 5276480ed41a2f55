import Mathlib.Data.List.Basic
import Tellstone.Lib.ByteStream

/-! Texts in UTF-8, and what becomes of a text when every byte that belongs to no character is
replaced. -/
namespace Utf8
open ByteStream

def between (lo hi b : UInt8) : Bool := decide (lo ≤ b) && decide (b ≤ hi)

def tail (b : UInt8) : Bool := between 0x80 0xbf b

def three (a b c : UInt8) : Bool :=
  (decide (a = 0xe0) && between 0xa0 0xbf b || between 0xe1 0xec a && tail b ||
    decide (a = 0xed) && between 0x80 0x9f b || between 0xee 0xef a && tail b) && tail c

def four (a b c d : UInt8) : Bool :=
  (decide (a = 0xf0) && between 0x90 0xbf b || between 0xf1 0xf3 a && tail b ||
    decide (a = 0xf4) && between 0x80 0x8f b) && tail c && tail d

def width : Bytes → Option Nat
  | a :: b :: c :: d :: _ =>
    if a ≤ 0x7f then some 1
    else if between 0xc2 0xdf a && tail b then some 2
    else if three a b c then some 3
    else if four a b c d then some 4
    else none
  | [a, b, c] =>
    if a ≤ 0x7f then some 1
    else if between 0xc2 0xdf a && tail b then some 2
    else if three a b c then some 3
    else none
  | [a, b] =>
    if a ≤ 0x7f then some 1
    else if between 0xc2 0xdf a && tail b then some 2
    else none
  | [a] => if a ≤ 0x7f then some 1 else none
  | [] => none

theorem width_bounds {s : Bytes} {n : Nat} (starts : width s = some n) : 0 < n ∧ n ≤ s.length := by
  unfold width at starts
  split at starts
  all_goals repeat' split at starts
  all_goals cases starts
  all_goals simp

/-- A character, or a byte that starts none. -/
inductive Piece where
  | char (bytes : Bytes)
  | stray (byte : UInt8)
  deriving DecidableEq, Repr

namespace Piece

def raw : Piece → Bytes
  | char bytes => bytes
  | stray byte => [byte]

def replaced : Piece → Bytes
  | char bytes => bytes
  | stray _ => [0xef, 0xbf, 0xbd]

def isChar : Piece → Bool
  | char _ => true
  | stray _ => false

end Piece

def split : Nat → Bytes → List Piece
  | 0, _ => []
  | _ + 1, [] => []
  | fuel + 1, b :: rest =>
    match width (b :: rest) with
    | some n => .char ((b :: rest).take n) :: split fuel ((b :: rest).drop n)
    | none => .stray b :: split fuel rest

def pieces (s : Bytes) : List Piece := split s.length s

def valid (s : Bytes) : Bool := (pieces s).all Piece.isChar

def sanitize (s : Bytes) : Bytes := (pieces s).flatMap Piece.replaced

theorem width_ascii {b : UInt8} (small : b ≤ 0x7f) (rest : Bytes) : width (b :: rest) = some 1 := by
  unfold width
  split
  all_goals
    rename_i same
    cases same
  all_goals exact if_pos small

theorem valid_of_ascii {s : Bytes} (small : ∀ b ∈ s, b ≤ 0x7f) : valid s = true := by
  have all (fuel : Nat) : (split fuel s).all Piece.isChar = true := by
    induction fuel generalizing s with
    | zero => rfl
    | succ fuel ih =>
      cases s with
      | nil => rfl
      | cons b rest =>
        rw [split, width_ascii (small b List.mem_cons_self)]
        exact ih fun c mem => small c (List.mem_cons_of_mem b mem)
  exact all s.length

theorem raw_split {fuel : Nat} {s : Bytes} (enough : s.length ≤ fuel) :
    (split fuel s).flatMap Piece.raw = s := by
  fun_induction split fuel s with
  | case1 s => exact (List.length_eq_zero_iff.mp (Nat.le_zero.mp enough)).symm
  | case2 fuel => rfl
  | case3 fuel b rest n starts ih =>
    have bounds := width_bounds starts
    have shorter : ((b :: rest).drop n).length ≤ fuel := by
      rw [List.length_drop]
      omega
    rw [List.flatMap_cons, ih shorter]
    exact List.take_append_drop n (b :: rest)
  | case4 fuel b rest stray ih =>
    rw [List.flatMap_cons, ih (Nat.le_of_succ_le_succ enough)]
    rfl

theorem length_replaced (ps : List Piece) :
    (ps.flatMap Piece.replaced).length =
      (ps.flatMap Piece.raw).length + 2 * ps.countP fun p => !p.isChar := by
  induction ps with
  | nil => rfl
  | cons p ps ih =>
    rw [List.flatMap_cons, List.flatMap_cons, List.length_append, List.length_append, ih]
    cases p with
    | char bytes =>
      rw [List.countP_cons_of_neg (by simp [Piece.isChar])]
      simp only [Piece.replaced, Piece.raw]
      omega
    | stray byte =>
      rw [List.countP_cons_of_pos (by simp [Piece.isChar])]
      simp only [Piece.replaced, Piece.raw, List.length_cons, List.length_nil]
      omega

theorem length_sanitize (s : Bytes) :
    (sanitize s).length = s.length + 2 * (pieces s).countP fun p => !p.isChar := by
  rw [sanitize, length_replaced, pieces, raw_split (Nat.le_refl _)]

theorem length_le_sanitize (s : Bytes) : s.length ≤ (sanitize s).length := by
  rw [length_sanitize]
  exact Nat.le_add_right _ _

theorem sanitize_of_valid {s : Bytes} (all : valid s = true) : sanitize s = s := by
  have same : (pieces s).flatMap Piece.replaced = (pieces s).flatMap Piece.raw := by
    apply List.flatMap_congr
    intro p mem
    have char := List.all_eq_true.mp all p mem
    cases p with
    | char bytes => rfl
    | stray byte => cases char
  rw [sanitize, same]
  exact raw_split (Nat.le_refl _)

theorem valid_of_length {s : Bytes} (same : (sanitize s).length = s.length) : valid s = true := by
  rw [length_sanitize] at same
  have none : (pieces s).countP (fun p => !p.isChar) = 0 := by omega
  rw [List.countP_eq_zero] at none
  apply List.all_eq_true.mpr
  intro p mem
  simpa using none p mem

theorem sanitize_eq_self_iff {s : Bytes} : sanitize s = s ↔ valid s = true :=
  ⟨fun same => valid_of_length (congrArg List.length same), sanitize_of_valid⟩

def spaces : List Bytes :=
  [[9], [10], [11], [12], [13], [32], [0xc2, 0x85], [0xc2, 0xa0], [0xe1, 0x9a, 0x80],
    [0xe2, 0x80, 0x80], [0xe2, 0x80, 0x81], [0xe2, 0x80, 0x82], [0xe2, 0x80, 0x83],
    [0xe2, 0x80, 0x84], [0xe2, 0x80, 0x85], [0xe2, 0x80, 0x86], [0xe2, 0x80, 0x87],
    [0xe2, 0x80, 0x88], [0xe2, 0x80, 0x89], [0xe2, 0x80, 0x8a], [0xe2, 0x80, 0xa8],
    [0xe2, 0x80, 0xa9], [0xe2, 0x80, 0xaf], [0xe2, 0x81, 0x9f], [0xe3, 0x80, 0x80]]

def trimWith (spaces : List Bytes) : Nat → Bytes → Bytes
  | 0, s => s
  | fuel + 1, s =>
    match spaces.find? fun space => space.isPrefixOf s with
    | some space => trimWith spaces fuel (s.drop space.length)
    | none => s

def trimSpace (s : Bytes) : Bytes :=
  let left := trimWith spaces s.length s
  (trimWith (spaces.map List.reverse) left.length left.reverse).reverse

end Utf8
