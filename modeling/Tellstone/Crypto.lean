import Tellstone.Lib.ByteStream

/-! The crypto engine, over the primitives the program takes from elsewhere. -/
namespace Tellstone
open ByteStream

/-- ChaCha20-Poly1305 takes keys of exactly 32 bytes. -/
abbrev CipherKey := { key : Bytes // key.length = 32 }

/-- Code outside the repository: AEAD, SHA-256, the nonces of crypto/rand, and xxhash. -/
structure Primitives where
  aeadSeal : CipherKey → Bytes → Bytes → Bytes
  aeadOpen : CipherKey → Bytes → Bytes → Option Bytes
  sum256 : Bytes → Bytes
  random : Nat → Bytes
  xxhash : Bytes → UInt64

/-- Opening inverts sealing and rejects everything else, and sizes are as documented. -/
structure Primitives.Lawful (P : Primitives) : Prop where
  open_seal : ∀ k n p, n.length = 12 → P.aeadOpen k n (P.aeadSeal k n p) = some p
  open_only : ∀ k n c p, n.length = 12 → P.aeadOpen k n c = some p → c = P.aeadSeal k n p
  seal_length : ∀ k n p, n.length = 12 → (P.aeadSeal k n p).length = p.length + 16
  sum256_length : ∀ bs, (P.sum256 bs).length = 32
  random_length : ∀ i, (P.random i).length = 12

/-- Primitives the model can be run on. -/
def Primitives.tagged : Primitives where
  aeadSeal _ _ p := p ++ List.replicate 16 0
  aeadOpen _ _ c :=
    if c.drop (c.length - 16) = List.replicate 16 0 then some (c.take (c.length - 16)) else none
  sum256 bs := List.replicate 32 (bs.headD 0)
  random i := putUint 12 i
  xxhash _ := 0

theorem Primitives.tagged_lawful : Primitives.tagged.Lawful where
  open_seal k n p h := by
    simp [tagged]
  open_only k n c p h opened := by
    simp only [tagged, Option.ite_none_right_eq_some, Option.some.injEq] at opened ⊢
    rw [← opened.1, ← opened.2, List.take_append_drop]
  seal_length k n p h := by simp [tagged]
  sum256_length bs := by simp [tagged]
  random_length i := by simp [tagged]

inductive Error where
  | engineFull
  | invalidKeyLength
  | decryptionFailed
  | badKeyLength
  | badNonce (got : Nat)
  | io
  | recordExpired
  | shardNotOpened (shard : Nat)
  | migrationInProgress (shard : Nat)
  | keyTooLarge (bytes : Nat)
  | valueTooLarge (bytes : Nat)
  | recordTooLarge (bytes : Nat)
  | readWALHeader
  | encryptedWithoutKey (shard : Nat)
  | migrationDecrypt (key : Bytes) (cause : Error)
  | migrationWrite (key : Bytes) (cause : Error)
  | loadSnapshot (shard : Nat) (cause : Error)
  | snapshotOpen
  | snapshotHeader
  | snapshotMagic (found : Bytes)
  | snapshotVersion (found : Nat)
  | snapshotFingerprintRead
  | snapshotFingerprint
  | snapshotEntryHeader
  | snapshotLengths (key value : Nat) (remaining : Int)
  | snapshotEntry
  | snapshotChecksum (file computed : Nat)
  | snapshotSet (cause : Error)
  | snapshotChild
  | shardStopped
  | openPersistence (shard : Nat) (cause : Error)
  | loadPersistence (shard : Nat) (cause : Error)
  deriving DecidableEq, Repr

/-- Disabled when no key is configured, and then every call passes data through. -/
inductive CryptoEngine where
  | passThrough
  | chacha (key : CipherKey)
  deriving DecidableEq, Repr

def fingerprintBytes (P : Primitives) (key : Bytes) : Bytes := (P.sum256 key).take 16

namespace CryptoEngine

def new (key : Bytes) : Except Error CryptoEngine :=
  if key.length = 0 then .ok passThrough
  else if h : key.length = 32 then .ok (chacha ⟨key, h⟩)
  else .error .badKeyLength

def enabled : CryptoEngine → Bool
  | passThrough => false
  | chacha _ => true

def keyFingerprint (P : Primitives) : CryptoEngine → Bytes
  | passThrough => List.replicate 16 0
  | chacha key => fingerprintBytes P key

def encryptInPlace (P : Primitives) (c : CryptoEngine) (draw : Nat) (plaintext : Bytes) : Bytes :=
  match c with
  | passThrough => plaintext
  | chacha key => P.random draw ++ P.aeadSeal key (P.random draw) plaintext

def decryptInPlace (P : Primitives) (c : CryptoEngine) (ciphertext : Bytes) :
    Except Error Bytes :=
  match c with
  | passThrough => .ok ciphertext
  | chacha key =>
    if ciphertext.length < 12 + 16 then .error .decryptionFailed
    else
      match P.aeadOpen key (ciphertext.take 12) (ciphertext.drop 12) with
      | some plaintext => .ok plaintext
      | none => .error .decryptionFailed

def sealWithCounter (P : Primitives) (c : CryptoEngine) (nonce plaintext : Bytes) :
    Except Error Bytes :=
  match c with
  | passThrough => .ok plaintext
  | chacha key =>
    if nonce.length ≠ 12 then .error (.badNonce nonce.length)
    else .ok (P.aeadSeal key nonce plaintext)

def openWithCounter (P : Primitives) (c : CryptoEngine) (nonce ciphertext : Bytes) :
    Except Error Bytes :=
  match c with
  | passThrough => .ok ciphertext
  | chacha key =>
    if nonce.length ≠ 12 then .error (.badNonce nonce.length)
    else if ciphertext.length < 16 then .error .decryptionFailed
    else
      match P.aeadOpen key nonce ciphertext with
      | some plaintext => .ok plaintext
      | none => .error .decryptionFailed

def storedSize (c : CryptoEngine) (size : Nat) : Nat :=
  if c.enabled then 12 + size + 16 else size

theorem encryptInPlace_length {P : Primitives} (law : P.Lawful) (c : CryptoEngine) (draw : Nat)
    (value : Bytes) : (c.encryptInPlace P draw value).length = c.storedSize value.length := by
  cases c with
  | passThrough => rfl
  | chacha key =>
    have nonce := law.random_length draw
    simp [encryptInPlace, storedSize, enabled, nonce, law.seal_length key _ value nonce]
    omega

theorem encryptInPlace_plain {P : Primitives} {c : CryptoEngine} (off : c.enabled = false)
    (draw : Nat) (value : Bytes) : c.encryptInPlace P draw value = value := by
  cases c with
  | passThrough => rfl
  | chacha key => cases off

theorem decrypt_encrypt {P : Primitives} (law : P.Lawful) (c : CryptoEngine) (draw : Nat)
    (value : Bytes) : c.decryptInPlace P (c.encryptInPlace P draw value) = .ok value := by
  cases c with
  | passThrough => rfl
  | chacha key =>
    have nonce := law.random_length draw
    have size := law.seal_length key (P.random draw) value nonce
    simp only [decryptInPlace, encryptInPlace, List.length_append, nonce, size,
      List.take_left' nonce, List.drop_left' nonce, law.open_seal key _ value nonce]
    rw [if_neg (by omega)]

theorem open_seal {P : Primitives} (law : P.Lawful) (key : CipherKey) {nonce : Bytes}
    (h : nonce.length = 12) (plaintext : Bytes) :
    (chacha key).openWithCounter P nonce (P.aeadSeal key nonce plaintext) = .ok plaintext := by
  have size := law.seal_length key nonce plaintext h
  simp only [openWithCounter, h, size, law.open_seal key nonce plaintext h]
  rw [if_neg (by omega), if_neg (by omega)]

end CryptoEngine

end Tellstone
