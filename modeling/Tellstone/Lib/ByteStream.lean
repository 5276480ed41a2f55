import Mathlib.Data.Nat.Digits.Defs

/-! Byte strings as a file layer sees them: fixed-width little-endian integers,
exact reads, and writes that a device may cut short. -/
namespace ByteStream

abbrev Bytes := List UInt8

def ascii (text : String) : Bytes := text.toList.map fun c => c.toNat.toUInt8

def putUint : Nat → Nat → Bytes
  | 0, _ => []
  | w + 1, n => UInt8.ofNat n :: putUint w (n / 256)

def uint (bs : Bytes) : Nat := Nat.ofDigits 256 (bs.map UInt8.toNat)

@[simp] theorem putUint_length (w n : Nat) : (putUint w n).length = w := by
  induction w generalizing n with
  | zero => rfl
  | succ w ih => simp [putUint, ih]

theorem uint_putUint (w n : Nat) : uint (putUint w n) = n % 256 ^ w := by
  induction w generalizing n with
  | zero => simp [putUint, uint, Nat.mod_one]
  | succ w ih =>
    have tail : Nat.ofDigits 256 ((putUint w (n / 256)).map UInt8.toNat) = n / 256 % 256 ^ w :=
      ih (n / 256)
    have head : (UInt8.ofNat n).toNat = n % 256 := by simp
    rw [uint, putUint, List.map_cons, Nat.ofDigits_cons, tail, head, Nat.pow_succ',
      Nat.mod_mul]

theorem uint_putUint_of_lt {w n : Nat} (h : n < 256 ^ w) : uint (putUint w n) = n := by
  rw [uint_putUint, Nat.mod_eq_of_lt h]

theorem uint_lt (bs : Bytes) : uint bs < 256 ^ bs.length := by
  have digits : ∀ d ∈ bs.map UInt8.toNat, d < 256 := by
    intro d mem
    obtain ⟨b, -, rfl⟩ := List.mem_map.mp mem
    exact b.toNat_lt
  simpa [uint] using Nat.ofDigits_lt_base_pow_length (by decide) digits

def int64 (n : Nat) : Int := if n < 2 ^ 63 then n else n - 2 ^ 64

def word64 (i : Int) : Nat := (i % 2 ^ 64).toNat

theorem word64_lt (i : Int) : word64 i < 256 ^ 8 := by
  have : 0 ≤ i % 2 ^ 64 := Int.emod_nonneg i (by omega)
  have : i % 2 ^ 64 < 2 ^ 64 := Int.emod_lt_of_pos i (by omega)
  simp only [word64]
  omega

theorem putUint_word64 (n : Nat) : putUint 8 (word64 n) = putUint 8 n := by
  have low (w n : Nat) : putUint w (n % 256 ^ w) = putUint w n := by
    induction w generalizing n with
    | zero => rfl
    | succ w ih =>
      have head : UInt8.ofNat (n % 256 ^ (w + 1)) = UInt8.ofNat n := by
        apply UInt8.toNat_inj.mp
        rw [UInt8.toNat_ofNat', UInt8.toNat_ofNat']
        exact Nat.mod_mod_of_dvd n ⟨256 ^ w, Nat.pow_succ'⟩
      rw [putUint, putUint, head, Nat.pow_succ', Nat.mod_mul_right_div_self, ih]
  rw [← low 8 n, word64]
  congr 1

theorem int64_word64 {i : Int} (lo : -2 ^ 63 ≤ i) (hi : i < 2 ^ 63) : int64 (word64 i) = i := by
  have cast : ((word64 i : Nat) : Int) = i % 2 ^ 64 :=
    Int.toNat_of_nonneg (Int.emod_nonneg i (by omega))
  unfold int64
  split <;> omega

theorem int64_range {n : Nat} (h : n < 2 ^ 64) : -2 ^ 63 ≤ int64 n ∧ int64 n < 2 ^ 63 := by
  unfold int64
  split <;> omega

/-- The bytes and what follows them, or nothing when the stream ends first. -/
def readFull (n : Nat) (s : Bytes) : Option (Bytes × Bytes) :=
  if n ≤ s.length then some (s.take n, s.drop n) else none

theorem readFull_append {n : Nat} {a : Bytes} (rest : Bytes) (h : a.length = n) :
    readFull n (a ++ rest) = some (a, rest) := by
  subst h
  simp [readFull]

theorem readFull_short {n : Nat} {s : Bytes} (h : s.length < n) : readFull n s = none := by
  simp [readFull, Nat.not_le.mpr h]

theorem readFull_some {n : Nat} {s a rest : Bytes} (h : readFull n s = some (a, rest)) :
    s = a ++ rest ∧ a.length = n := by
  unfold readFull at h
  split at h
  · rename_i fits
    simp only [Option.some.injEq, Prod.mk.injEq] at h
    obtain ⟨rfl, rfl⟩ := h
    exact ⟨(List.take_append_drop n s).symm, List.length_take_of_le fits⟩
  · cases h

theorem length_of_readFull {n : Nat} {s a rest : Bytes} (h : readFull n s = some (a, rest)) :
    s.length = n + rest.length := by
  obtain ⟨rfl, rfl⟩ := readFull_some h
  exact List.length_append

/-- Writes to a device that takes `budget` more bytes; the first that does not fit leaves a part
and fails. -/
def writeChunks : List Bytes → Nat → Bytes × Bool
  | [], _ => ([], true)
  | c :: cs, budget =>
    if c.length ≤ budget then
      let tail := writeChunks cs (budget - c.length)
      (c ++ tail.1, tail.2)
    else (c.take budget, false)

/-- Under `some n` the device takes `n` bytes and then fails the write, or the sync when none is
left to write. -/
abbrev Fault := Option Nat

/-- One record and the sync: what reached the file, and whether every call succeeded. -/
def writeSync (fault : Fault) (chunks : List Bytes) : Bytes × Bool :=
  match fault with
  | none => (chunks.flatten, true)
  | some n => ((writeChunks chunks n).1, false)

theorem writeChunks_written (chunks : List Bytes) (budget : Nat) :
    (writeChunks chunks budget).1 = chunks.flatten.take budget := by
  induction chunks generalizing budget with
  | nil => simp [writeChunks]
  | cons c cs ih =>
    simp only [writeChunks, List.flatten_cons]
    split
    · rename_i fits
      rw [List.take_append, List.take_of_length_le fits, ih]
    · rename_i cut
      rw [List.take_append_of_le_length (by omega)]

def Fault.cut (fault : Fault) (bs : Bytes) : Bytes :=
  match fault with
  | none => bs
  | some n => bs.take n

def Fault.takes (fault : Fault) (n : Nat) : Bool :=
  match fault with
  | none => true
  | some m => decide (n ≤ m)

theorem Fault.takes_iff {fault : Fault} {n : Nat} :
    fault.takes n = true ↔ ∀ m, fault = some m → n ≤ m := by
  cases fault <;> simp [takes]

theorem writeSync_eq (fault : Fault) (chunks : List Bytes) :
    writeSync fault chunks = (fault.cut chunks.flatten, fault.isNone) := by
  cases fault with
  | none => rfl
  | some n => simp [writeSync, writeChunks_written, Fault.cut]

end ByteStream
