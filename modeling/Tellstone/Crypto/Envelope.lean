import Tellstone.Crypto

/-! Envelope files: a data key wrapped under a key encryption key, behind the fingerprint of
the latter. -/
namespace Tellstone
open ByteStream

def envVersion : UInt8 := 1

def envFingerprintLen : Nat := 16

def keySize : Nat := 32

inductive EnvelopeError where
  | unsupportedFormat
  | fingerprintMismatch
  | unwrap (cause : Error)
  deriving DecidableEq, Repr

/-- Passes its key through when it has none. -/
structure Envelope where
  kek : Bytes
  cryptoEngine : CryptoEngine
  dek : Bytes
  deriving DecidableEq, Repr

namespace Envelope

def new (key : Bytes) : Except Error Envelope :=
  (CryptoEngine.new key).map fun engine => ⟨key, engine, []⟩

def enabled (e : Envelope) : Bool := e.cryptoEngine.enabled

def encrypt (P : Primitives) (e : Envelope) (draw : Nat) : Bytes :=
  if e.enabled then e.cryptoEngine.encryptInPlace P draw e.dek else e.kek

def decrypt (P : Primitives) (e : Envelope) (encryptedDEK : Bytes) : Except Error Bytes :=
  if e.enabled then e.cryptoEngine.decryptInPlace P encryptedDEK else .ok e.kek

def layout (fingerprint wrapped : Bytes) : Bytes := envVersion :: fingerprint ++ wrapped

def load (P : Primitives) (e : Envelope) (raw : Bytes) : Except EnvelopeError Bytes :=
  let headerLen := 1 + envFingerprintLen
  if raw.length < headerLen ∨ raw.headD 0 ≠ envVersion then .error .unsupportedFormat
  else if (raw.drop 1).take envFingerprintLen ≠ fingerprintBytes P e.kek then
    .error .fingerprintMismatch
  else
    match e.decrypt P (raw.drop headerLen) with
    | .error err => .error (.unwrap err)
    | .ok dek => .ok dek

def ofKey (kek : CipherKey) : Envelope := ⟨kek, .chacha kek, []⟩

section
variable {P : Primitives}

theorem new_ofKey (kek : CipherKey) : new kek.1 = .ok (ofKey kek) := by
  have full : kek.1.length ≠ 0 := by rw [kek.2]; decide
  simp only [new, CryptoEngine.new, if_neg full, dif_pos kek.2]
  rfl

def stamp (raw : Bytes) : Bytes := (raw.drop 1).take envFingerprintLen

def WellFormed (raw : Bytes) : Prop :=
  1 + envFingerprintLen ≤ raw.length ∧ raw.headD 0 = envVersion

theorem wellFormed_iff {raw : Bytes} : WellFormed raw ↔
    ¬ (raw.length < 1 + envFingerprintLen ∨ raw.headD 0 ≠ envVersion) := by
  rw [not_or, not_lt, not_not]
  rfl

theorem load_ok_iff {kek : CipherKey} {raw dek : Bytes} :
    (ofKey kek).load P raw = .ok dek ↔
      WellFormed raw ∧ stamp raw = fingerprintBytes P kek ∧
        (CryptoEngine.chacha kek).decryptInPlace P (raw.drop (1 + envFingerprintLen)) = .ok dek := by
  rw [wellFormed_iff, stamp]
  simp only [load, decrypt, ofKey, enabled, CryptoEngine.enabled, ↓reduceIte]
  by_cases format : raw.length < 1 + envFingerprintLen ∨ raw.headD 0 ≠ envVersion
  · simp only [format, if_true, not_true_eq_false, false_and, reduceCtorEq]
  rw [if_neg format]
  by_cases stamped : (raw.drop 1).take envFingerprintLen = fingerprintBytes P kek
  · simp only [format, stamped, ne_eq, not_true_eq_false, not_false_eq_true, true_and, if_false]
    cases (CryptoEngine.chacha kek).decryptInPlace P (raw.drop (1 + envFingerprintLen)) <;> simp
  · simp only [stamped, ne_eq, not_false_eq_true, if_true, false_and, and_false, reduceCtorEq]

theorem fingerprintBytes_length (law : P.Lawful) (key : Bytes) :
    (fingerprintBytes P key).length = envFingerprintLen := by
  simp [fingerprintBytes, law.sum256_length, envFingerprintLen]

theorem layout_fields {fingerprint : Bytes} (size : fingerprint.length = envFingerprintLen)
    (wrapped : Bytes) :
    let raw := layout fingerprint wrapped
    WellFormed raw ∧ stamp raw = fingerprint ∧ raw.drop (1 + envFingerprintLen) = wrapped := by
  refine ⟨⟨?_, rfl⟩, List.take_left' size, ?_⟩
  · simp only [layout, List.length_append, List.length_cons, size]
    omega
  · rw [Nat.add_comm, layout, List.cons_append, List.drop_succ_cons]
    exact List.drop_left' size

theorem load_layout (law : P.Lawful) (kek : CipherKey) (draw : Nat) (dek : Bytes) :
    (ofKey kek).load P (layout (fingerprintBytes P kek)
      ((CryptoEngine.chacha kek).encryptInPlace P draw dek)) = .ok dek := by
  obtain ⟨format, stamped, wrapped⟩ := layout_fields (fingerprintBytes_length law kek)
    ((CryptoEngine.chacha kek).encryptInPlace P draw dek)
  rw [load_ok_iff, wrapped, CryptoEngine.decrypt_encrypt law]
  exact ⟨format, stamped, rfl⟩

end

end Envelope

end Tellstone
