import Tellstone.Audit.Reading
import Tellstone.Crypto.DataKey

/-! The decryption of an audit file away from the server, with the key encryption key. -/
namespace Tellstone.Audit
open ByteStream FileOps

inductive DecryptError where
  | emptyFile
  | header (cause : HeaderError)
  | noKey
  | fingerprintMismatch
  | unsupportedKeyMode (keyMode : UInt8)
  | readEnvelope
  | truncatedEnvelope
  | unsupportedEnvelope
  | kekMismatch
  | unwrapDEK (cause : Error)
  | dekEngineInit (cause : Error)
  | dekMismatch
  | records (cause : DecodeError)

section
variable (P : Primitives) (d : Dir)

def unwrapDEK (auditFingerprint : Bytes) (kek : CryptoEngine) :
    Except DecryptError CryptoEngine :=
  match d.lookup auditEnvelope with
  | none => .error .readEnvelope
  | some raw =>
    if raw.length < 1 + envFingerprintLen then .error .truncatedEnvelope
    else if raw.headD 0 ≠ envVersion then .error .unsupportedEnvelope
    else if kek.keyFingerprint P ≠ Envelope.stamp raw then .error .kekMismatch
    else
      match kek.decryptInPlace P (raw.drop (1 + envFingerprintLen)) with
      | .error err => .error (.unwrapDEK err)
      | .ok dek =>
        match CryptoEngine.new dek with
        | .error err => .error (.dekEngineInit err)
        | .ok engine =>
          if engine.keyFingerprint P ≠ auditFingerprint then .error .dekMismatch else .ok engine

/-- A missing engine is one that passes through. -/
def resolveEngine (engine : CryptoEngine) :
    Option (UInt8 × Bytes × Bytes) → Except DecryptError CryptoEngine
  | none => .ok engine
  | some (keyMode, fingerprint, _) =>
    if keyMode = KeyMode.simple.byte then
      if engine.enabled = true ∧ engine.keyFingerprint P ≠ fingerprint then
        .error .fingerprintMismatch
      else .ok .passThrough
    else if keyMode = KeyMode.envelope.byte then
      if engine.enabled = false then .error .noKey
      else if engine.keyFingerprint P = fingerprint then .ok engine
      else if (d.lookup auditEnvelope).isNone then .error .fingerprintMismatch
      else unwrapDEK P d fingerprint engine
    else .error (.unsupportedKeyMode keyMode)

def decryptFile (J : Codec) (engine : CryptoEngine) (data : Bytes) : Except DecryptError Bytes :=
  if data.length = 0 then .error .emptyFile
  else
    match parseHeader data with
    | .error err => .error (.header err)
    | .ok header =>
      match resolveEngine P d engine header with
      | .error err => .error err
      | .ok engine =>
        (decodeAllRecords P J engine (header.elim data fun h => h.2.2)).mapError .records

end

section
variable {P : Primitives} {d : Dir}

theorem parseHeader_header (keyMode : KeyMode) (fp : Fingerprint) (body : Bytes) :
    parseHeader (header keyMode fp ++ body) = .ok (some (keyMode.byte, fp.1, body)) := by
  have start : (header keyMode fp ++ body).take 4 = auditFileMagic := rfl
  have size := header_length keyMode fp
  have long : auditFileHeaderLen ≤ (header keyMode fp ++ body).length := by
    rw [List.length_append, size]
    omega
  have named : ((header keyMode fp ++ body).drop 6).take 16 = fp.1 := List.take_left' fp.2
  rw [parseHeader, if_neg, if_neg (Nat.not_lt.mpr long), if_neg, named, List.drop_left' size]
  · rfl
  · exact not_not.mpr rfl
  · rw [not_or, not_lt]
    exact ⟨Nat.le_trans (by decide) long, not_not.mpr start⟩

theorem unwrapDEK_spec {raw dek : Bytes} {kek key : CipherKey}
    (found : d.lookup auditEnvelope = some raw) (loads : (Envelope.ofKey kek).load P raw = .ok dek)
    (made : CryptoEngine.new dek = .ok (.chacha key)) :
    unwrapDEK P d (fingerprintBytes P key) (.chacha kek) = .ok (.chacha key) ∧
      ∀ other : CipherKey, fingerprintBytes P other ≠ fingerprintBytes P kek →
        unwrapDEK P d (fingerprintBytes P key) (.chacha other) = .error .kekMismatch := by
  obtain ⟨⟨long, version⟩, stamped, opens⟩ := Envelope.load_ok_iff.mp loads
  have shown (key : CipherKey) :
      (CryptoEngine.chacha key).keyFingerprint P = fingerprintBytes P key := rfl
  have format : ¬ raw.length < 1 + envFingerprintLen := Nat.not_lt.mpr long
  constructor
  · simp only [unwrapDEK, found, format, version, shown, stamped, opens, made, ne_eq,
      not_true_eq_false, ↓reduceIte]
  · intro other ne
    simp only [unwrapDEK, found, format, version, shown, stamped, ne, ne_eq,
      not_true_eq_false, not_false_eq_true, ↓reduceIte]

end

/-- Whatever starts and rotations there were, a file that the audit log sealed under its data key
is decrypted with one of the key encryption keys, and with none of them otherwise than under the
data key. -/
theorem decryptFile_after_rotations {P : Primitives} (law : P.Lawful) (J : Codec) (d : Dir)
    (events : List KeyEvent) (apart : Apart P (events.flatMap KeyEvent.keks)) (dek : CipherKey)
    (started : (.audit, .chacha dek) ∈ (KeyEvent.run P d events).1)
    (other : ∀ kek ∈ events.flatMap KeyEvent.keks,
      fingerprintBytes P kek ≠ fingerprintBytes P dek)
    (fp : Fingerprint) (named : fp.1 = fingerprintBytes P dek) (body : Bytes) :
    let decrypted (kek : CipherKey) := decryptFile P (KeyEvent.run P d events).2 J (.chacha kek)
      (header .envelope fp ++ body)
    let records := (decodeAllRecords P J (.chacha dek) body).mapError DecryptError.records
    (∃ kek ∈ events.flatMap KeyEvent.keks, decrypted kek = records) ∧
      ∀ kek ∈ events.flatMap KeyEvent.keks, ∀ out, decrypted kek = .ok out → records = .ok out := by
  intro decrypted records
  obtain ⟨key, ⟨kek, mem, raw, found, loads⟩, made⟩ := started_held law apart started
  rw [KeyOwner.file] at found
  obtain ⟨unwraps, refuses⟩ := unwrapDEK_spec found loads made
  have decrypts (kek : CipherKey) (mem : kek ∈ events.flatMap KeyEvent.keks) :
      decrypted kek =
        match unwrapDEK P (KeyEvent.run P d events).2 (fingerprintBytes P dek) (.chacha kek) with
        | .error err => .error err
        | .ok engine => (decodeAllRecords P J engine body).mapError .records := by
    have written : (header .envelope fp ++ body).length ≠ 0 := by
      simp [header_length, auditFileHeaderLen]
    have direct : (CryptoEngine.chacha kek).keyFingerprint P ≠ fingerprintBytes P dek :=
      other kek mem
    simp only [decrypted, decryptFile, if_neg written, parseHeader_header, resolveEngine, named,
      if_neg direct, found]
    rfl
  have own : decrypted kek = records := (decrypts kek mem).trans (by rw [unwraps])
  refine ⟨⟨kek, mem, own⟩, fun kek' mem' out ok => ?_⟩
  by_cases same : fingerprintBytes P kek' = fingerprintBytes P kek
  · rw [apart kek' mem' kek mem same] at ok
    exact own.symm.trans ok
  · rw [decrypts kek' mem', refuses kek' same] at ok
    cases ok

theorem decryptFile_after_one_rotation :
    ∃ kek ∈ (rotatedOnce .audit).flatMap KeyEvent.keks,
      decryptFile .tagged (KeyEvent.run .tagged ∅ (rotatedOnce .audit)).2 .marked (.chacha kek)
        (header .envelope ⟨fingerprintBytes .tagged (sampleKey 7), rfl⟩ ++ []) = .ok [] :=
  (decryptFile_after_rotations Primitives.tagged_lawful .marked ∅ (rotatedOnce .audit)
    (rotatedOnce_apart .audit) (sampleKey 7) (by decide +kernel) (by decide +kernel) _ rfl []).1

end Tellstone.Audit
