import Tellstone.Storage.Contents

/-! GetInto: a read into a buffer of the caller. The plaintext branch copies, the encrypted one
appends, and so moves elsewhere when the capacity is short. -/
namespace Tellstone
open ByteStream ExpiringMap

/-- A slice. `array` is what lies between its first byte and its capacity. -/
structure Buffer where
  array : Bytes
  len : Nat
  fits : len ≤ array.length
  deriving DecidableEq, Repr

def Buffer.rewritten (b : Buffer) (array : Bytes) (same : array.length = b.array.length) : Buffer :=
  ⟨array, b.len, same ▸ b.fits⟩

def overwrite (array data : Bytes) : Bytes := data ++ array.drop data.length

theorem overwrite_length {array data : Bytes} (room : data.length ≤ array.length) :
    (overwrite array data).length = array.length := by
  rw [overwrite, List.length_append, List.length_drop]
  omega

/-- What becomes of the caller's array when `data` is appended to the empty slice at its start. -/
def appended (array data : Bytes) : Bytes :=
  if data.length ≤ array.length then overwrite array data else array

theorem appended_length (array data : Bytes) : (appended array data).length = array.length := by
  unfold appended
  split
  · rename_i room
    exact overwrite_length room
  · rfl

namespace CryptoEngine

/-- The array behind `dst`, and the outcome. An authentication failure wipes the output. -/
def decryptInPlaceWithDst (P : Primitives) (c : CryptoEngine) (dst ciphertext : Bytes) :
    Bytes × Except Error Bytes :=
  match c with
  | passThrough => (dst, .ok ciphertext)
  | chacha key =>
    if ciphertext.length < 12 + 16 then (dst, .error .decryptionFailed)
    else
      match P.aeadOpen key (ciphertext.take 12) (ciphertext.drop 12) with
      | some plaintext => (appended dst plaintext, .ok plaintext)
      | none =>
        (appended dst (List.replicate (ciphertext.length - 28) 0), .error .decryptionFailed)

section
variable {P : Primitives} {c : CryptoEngine}

theorem decryptInPlaceWithDst_outcome (dst ciphertext : Bytes) :
    (c.decryptInPlaceWithDst P dst ciphertext).2 = c.decryptInPlace P ciphertext := by
  cases c with
  | passThrough => rfl
  | chacha key =>
    simp only [decryptInPlaceWithDst, decryptInPlace]
    split
    · rfl
    · cases P.aeadOpen key (ciphertext.take 12) (ciphertext.drop 12) <;> rfl

theorem decryptInPlaceWithDst_length (dst ciphertext : Bytes) :
    (c.decryptInPlaceWithDst P dst ciphertext).1.length = dst.length := by
  cases c with
  | passThrough => rfl
  | chacha key =>
    simp only [decryptInPlaceWithDst]
    split
    · rfl
    · cases P.aeadOpen key (ciphertext.take 12) (ciphertext.drop 12) with
      | none => exact appended_length _ _
      | some plaintext => exact appended_length _ _

theorem decryptInPlaceWithDst_array (dst : Bytes) {ciphertext plaintext : Bytes}
    (on : c.enabled = true) (opened : c.decryptInPlace P ciphertext = .ok plaintext) :
    (c.decryptInPlaceWithDst P dst ciphertext).1 = appended dst plaintext := by
  cases c with
  | passThrough => cases on
  | chacha key =>
    simp only [decryptInPlace] at opened
    simp only [decryptInPlaceWithDst]
    split at opened
    · cases opened
    · rename_i long
      rw [if_neg long]
      cases read : P.aeadOpen key (ciphertext.take 12) (ciphertext.drop 12) with
      | none =>
        rw [read] at opened
        cases opened
      | some found =>
        rw [read] at opened
        obtain rfl := Except.ok.inj opened
        rfl

end

end CryptoEngine

/-- A call of GetInto: the engine, the caller's buffer, and the count that came with true. -/
structure Read where
  engine : Engine
  buf : Buffer
  count : Option Nat

namespace Engine

def getInto (P : Primitives) (now : Time) (e : Engine) (buf : Buffer) (key : Bytes) : Read :=
  match e.items.lookup key with
  | none =>
    ⟨{ e with missCount := e.missCount + 1, totalCommands := e.totalCommands + 1 }, buf, none⟩
  | some item =>
    if expired now item.expiration then
      let (e, evicted) := e.deleteIfExpired now key
      ⟨if evicted then { e with expiredCount := e.expiredCount + 1 } else e, buf, none⟩
    else if e.crypto.enabled then
      let opened := e.crypto.decryptInPlaceWithDst P buf.array item.value
      let buf := buf.rewritten opened.1 (CryptoEngine.decryptInPlaceWithDst_length _ _)
      match opened.2 with
      | .error _ => ⟨e, buf, none⟩
      | .ok plain =>
        ⟨{ e with
          hitCount := e.hitCount + 1
          totalCommands := e.totalCommands + 1
          cryptoDecryptedBytes := e.cryptoDecryptedBytes + plain.length }, buf, some plain.length⟩
    else if short : buf.len < item.value.length then ⟨e, buf, none⟩
    else
      ⟨{ e with hitCount := e.hitCount + 1, totalCommands := e.totalCommands + 1 },
        buf.rewritten (overwrite buf.array item.value)
          (overwrite_length (Nat.le_trans (Nat.le_of_not_lt short) buf.fits)),
        some item.value.length⟩

section
variable (P : Primitives) (now : Time) (e : Engine) (buf : Buffer) (key : Bytes)

def Agrees : Prop :=
  (∀ n, (e.getInto P now buf key).count = some n → n ≤ buf.len ∧
    (e.get P now key).2 = some ((e.getInto P now buf key).buf.array.take n)) ∧
  ∀ v, (e.get P now key).2 = some v → v.length ≤ buf.len →
    (e.getInto P now buf key).count = some v.length ∧
      (e.getInto P now buf key).buf.array.take v.length = v

variable {P now e buf key}

theorem getInto_none (absent : (e.get P now key).2 = none) :
    (e.getInto P now buf key).count = none := by
  unfold get at absent
  unfold getInto
  cases found : e.items.lookup key with
  | none => rfl
  | some item =>
    simp only [found] at absent ⊢
    cases gone : expired now item.expiration with
    | true => rfl
    | false =>
      simp only [gone, Bool.false_eq_true, ↓reduceIte] at absent ⊢
      cases on : e.crypto.enabled with
      | false => simp [on] at absent
      | true =>
        simp only [on, ↓reduceIte, CryptoEngine.decryptInPlaceWithDst_outcome] at absent ⊢
        cases opened : e.crypto.decryptInPlace P item.value with
        | error err => rfl
        | ok plain => simp [opened] at absent

theorem get_some {v : Bytes} (read : (e.get P now key).2 = some v) :
    ∃ item, e.items.lookup key = some item ∧ expired now item.expiration = false ∧
      e.crypto.decryptInPlace P item.value = .ok v := by
  unfold get at read
  cases found : e.items.lookup key with
  | none => simp [found] at read
  | some item =>
    cases gone : expired now item.expiration with
    | true => simp [found, gone] at read
    | false =>
      simp only [found, gone, Bool.false_eq_true, ↓reduceIte] at read
      refine ⟨item, rfl, gone, ?_⟩
      cases crypto : e.crypto with
      | passThrough =>
        simp only [crypto, CryptoEngine.enabled, Bool.false_eq_true, ↓reduceIte] at read
        exact congrArg Except.ok (Option.some.inj read)
      | chacha k =>
        simp only [crypto, CryptoEngine.enabled, ↓reduceIte] at read
        cases opened : (CryptoEngine.chacha k).decryptInPlace P item.value with
        | error err => simp [opened] at read
        | ok plain =>
          rw [opened] at read
          exact congrArg Except.ok (Option.some.inj read)

theorem getInto_encrypted (buf : Buffer) {v : Bytes} (on : e.crypto.enabled = true)
    (read : (e.get P now key).2 = some v) :
    (e.getInto P now buf key).count = some v.length ∧
      (e.getInto P now buf key).buf.array = appended buf.array v := by
  obtain ⟨item, found, live, opened⟩ := get_some read
  have array := CryptoEngine.decryptInPlaceWithDst_array buf.array on opened
  simp only [getInto, found, live, on, Bool.false_eq_true, ↓reduceIte,
    CryptoEngine.decryptInPlaceWithDst_outcome, opened, Buffer.rewritten, array, and_self]

theorem getInto_plain (buf : Buffer) {v : Bytes} (off : e.crypto.enabled = false)
    (read : (e.get P now key).2 = some v) :
    if buf.len < v.length then (e.getInto P now buf key).count = none
    else (e.getInto P now buf key).count = some v.length ∧
      (e.getInto P now buf key).buf.array = overwrite buf.array v := by
  obtain ⟨item, found, live, opened⟩ := get_some read
  have plain : item.value = v := by
    cases crypto : e.crypto with
    | passThrough =>
      rw [crypto] at opened
      exact Except.ok.inj opened
    | chacha k => simp [crypto, CryptoEngine.enabled] at off
  subst plain
  simp only [getInto, found, live, off, Bool.false_eq_true, ↓reduceIte]
  split
  · rfl
  · exact ⟨rfl, rfl⟩

theorem take_appended {array v : Bytes} (room : v.length ≤ array.length) :
    (appended array v).take v.length = v := by
  rw [appended, if_pos room, overwrite, List.take_left]

/-- GetInto agrees with Get, unless a value is decrypted that is longer than the buffer. -/
theorem getInto_agrees_iff : Agrees P now e buf key ↔
    (e.crypto.enabled = true → ∀ v, (e.get P now key).2 = some v → v.length ≤ buf.len) := by
  constructor
  · intro agrees on v read
    exact (agrees.1 v.length (getInto_encrypted buf on read).1).1
  · intro fits
    cases read : (e.get P now key).2 with
    | none =>
      constructor
      · intro n counted
        rw [getInto_none read] at counted
        cases counted
      · intro v found
        rw [read] at found
        cases found
    | some v =>
      have filled (room : v.length ≤ buf.len) : (e.getInto P now buf key).count = some v.length ∧
          (e.getInto P now buf key).buf.array.take v.length = v := by
        cases on : e.crypto.enabled with
        | true =>
          obtain ⟨counted, array⟩ := getInto_encrypted buf on read
          exact ⟨counted, array ▸ take_appended (Nat.le_trans room buf.fits)⟩
        | false =>
          have plain := getInto_plain buf on read
          rw [if_neg (Nat.not_lt.mpr room)] at plain
          exact ⟨plain.1, by rw [plain.2, overwrite, List.take_left]⟩
      have fit {n : Nat} (counted : (e.getInto P now buf key).count = some n) :
          v.length ≤ buf.len := by
        cases on : e.crypto.enabled with
        | true => exact fits on v read
        | false =>
          by_contra long
          have plain := getInto_plain buf on read
          rw [if_pos (Nat.lt_of_not_le long), counted] at plain
          cases plain
      constructor
      · intro n counted
        have room := fit counted
        obtain ⟨same, array⟩ := filled room
        rw [same] at counted
        obtain rfl := Option.some.inj counted
        exact ⟨room, read.trans (congrArg some array.symm)⟩
      · intro w found room
        rw [read] at found
        obtain rfl := Option.some.inj found
        exact filled room

end

def sampleSealed : Engine :=
  ((new 0 0 0 (.chacha ⟨List.replicate 32 7, rfl⟩) 0).set .tagged 0 [107] [1, 2, 3] 0).1

theorem getInto_reports_too_much :
    let buf : Buffer := ⟨[0, 0], 2, Nat.le_refl 2⟩
    (sampleSealed.get .tagged 1 [107]).2 = some [1, 2, 3] ∧
      (sampleSealed.getInto .tagged 1 buf [107]).count = some 3 ∧
      (sampleSealed.getInto .tagged 1 buf [107]).buf = buf ∧
      ¬ Agrees .tagged 1 sampleSealed buf [107] := by
  have read : (sampleSealed.get .tagged 1 [107]).2 = some [1, 2, 3] := by decide
  have counted :
      (sampleSealed.getInto .tagged 1 ⟨[0, 0], 2, Nat.le_refl 2⟩ [107]).count = some 3 := by decide
  refine ⟨read, counted, by decide, ?_⟩
  intro agrees
  exact absurd (agrees.1 3 counted).1 (by decide)

end Engine

/-- The first half of a read ends it, or leaves an entry to evict. -/
inductive Look (α : Type) where
  | answered (result : α)
  | over
  deriving DecidableEq, Repr

namespace Engine

def look (P : Primitives) (now : Time) (e : Engine) (key : Bytes) :
    Engine × Look (Option Bytes) :=
  match e.items.lookup key with
  | none =>
    ({ e with missCount := e.missCount + 1, totalCommands := e.totalCommands + 1 },
      .answered none)
  | some item =>
    if expired now item.expiration then (e, .over)
    else if e.crypto.enabled then
      match e.crypto.decryptInPlace P item.value with
      | .error _ => (e, .answered none)
      | .ok plain =>
        ({ e with
          hitCount := e.hitCount + 1
          totalCommands := e.totalCommands + 1
          cryptoDecryptedBytes := e.cryptoDecryptedBytes + plain.length }, .answered (some plain))
    else
      ({ e with hitCount := e.hitCount + 1, totalCommands := e.totalCommands + 1 },
        .answered (some item.value))

def lookInto (P : Primitives) (now : Time) (e : Engine) (buf : Buffer) (key : Bytes) :
    Engine × Look (Buffer × Option Nat) :=
  match e.items.lookup key with
  | none =>
    ({ e with missCount := e.missCount + 1, totalCommands := e.totalCommands + 1 },
      .answered (buf, none))
  | some item =>
    if expired now item.expiration then (e, .over)
    else if e.crypto.enabled then
      let opened := e.crypto.decryptInPlaceWithDst P buf.array item.value
      let buf := buf.rewritten opened.1 (CryptoEngine.decryptInPlaceWithDst_length _ _)
      match opened.2 with
      | .error _ => (e, .answered (buf, none))
      | .ok plain =>
        ({ e with
          hitCount := e.hitCount + 1
          totalCommands := e.totalCommands + 1
          cryptoDecryptedBytes := e.cryptoDecryptedBytes + plain.length },
          .answered (buf, some plain.length))
    else if short : buf.len < item.value.length then (e, .answered (buf, none))
    else
      ({ e with hitCount := e.hitCount + 1, totalCommands := e.totalCommands + 1 },
        .answered (buf.rewritten (overwrite buf.array item.value)
          (overwrite_length (Nat.le_trans (Nat.le_of_not_lt short) buf.fits)),
          some item.value.length))

end Engine

end Tellstone
