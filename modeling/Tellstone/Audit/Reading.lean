import Tellstone.Audit.File
import Tellstone.Texts

/-! The readers of audit files: the replay at startup, which recovers what it can, and the
decryption of a whole file, which stops at the first thing that is wrong. -/
namespace Tellstone.Audit
open ByteStream Network Framing

inductive HeaderError where
  | truncated (bytes : Nat)
  | unsupportedVersion (version : UInt8)
  deriving DecidableEq, Repr

def HeaderError.text : HeaderError → Bytes
  | truncated bytes =>
    ascii "audit: header truncated (" ++ Resp2.number bytes ++ ascii " bytes, need 22)"
  | unsupportedVersion version =>
    ascii "audit: unsupported header version " ++ Resp2.number version.toNat

/-- What a file starts with: the byte of its key mode, a fingerprint and the rest; or no header. -/
def parseHeader (data : Bytes) : Except HeaderError (Option (UInt8 × Bytes × Bytes)) :=
  if data.length < 4 ∨ data.take 4 ≠ auditFileMagic then .ok none
  else if data.length < auditFileHeaderLen then .error (.truncated data.length)
  else if data.getD 4 0 ≠ auditFileVersion then .error (.unsupportedVersion (data.getD 4 0))
  else .ok (some (data.getD 5 0, (data.drop 6).take 16, data.drop auditFileHeaderLen))

/-- A frame that is there as a whole: its blob, and what follows it. -/
inductive Frame where
  | none
  | cut
  | empty
  | blob (sealed rest : Bytes)

def nextFrame (data : Bytes) : Frame :=
  if data.length < 4 then .none
  else
    let blobLen := uintBE (data.take 4)
    let data := data.drop 4
    if blobLen = 0 then .empty
    else if data.length < blobLen then .cut
    else .blob (data.take blobLen) (data.drop blobLen)

section
variable (P : Primitives) (J : Codec) (ce : CryptoEngine)

def encryptedTurn (s : Bytes × List ReplayEntry) : Turn (Bytes × List ReplayEntry) Empty :=
  match nextFrame s.1 with
  | .none | .cut | .empty => .stop s
  | .blob sealed rest =>
    match ce.decryptInPlace P sealed with
    | .error _ => .more (rest, s.2)
    | .ok plain => .more (rest, s.2 ++ (decodeRecord J plain).toList)

def decodeEncrypted (data : Bytes) : List ReplayEntry :=
  (loop (encryptedTurn P J ce) (fun s => s.1.length) (data, [])).1.2

inductive DecodeError where
  | zeroLengthBlob
  | decryptRecord (cause : Error)
  | notJSON
  deriving DecidableEq, Repr

def DecodeError.text (pl : Platform) : DecodeError → Bytes
  | zeroLengthBlob => ascii "audit: malformed frame: zero-length blob"
  | decryptRecord cause => ascii "audit: decrypt record: " ++ pl.errorText cause
  | notJSON => ascii "audit: decrypted record is not valid JSON; wrong key or corrupted data"

def allRecordsTurn (s : Bytes × Bytes) : Turn (Bytes × Bytes) DecodeError :=
  match nextFrame s.1 with
  | .none | .cut => .stop s
  | .empty => .fail s .zeroLengthBlob
  | .blob sealed rest =>
    match ce.decryptInPlace P sealed with
    | .error cause => .fail s (.decryptRecord cause)
    | .ok plain => if J.valid plain then .more (rest, s.2 ++ plain) else .fail s .notJSON

def decodeAllRecords (data : Bytes) : Except DecodeError Bytes :=
  if ce.enabled = false then .ok data
  else
    match loop (allRecordsTurn P J ce) (fun s => s.1.length) (data, []) with
    | (s, none) => .ok s.2
    | (_, some err) => .error err

def decodePlaintext (data : Bytes) : List ReplayEntry :=
  (data.splitOn 10).filterMap fun line =>
    if Utf8.trimSpace line = [] then none else decodeRecord J line

/-- Nothing if the file cannot be read or another key sealed it. -/
def readFile (contents : Option Bytes) : List ReplayEntry :=
  match contents with
  | none => []
  | some data =>
    match parseHeader data with
    | .error _ => []
    | .ok none => if ce.enabled then decodeEncrypted P J ce data else decodePlaintext J data
    | .ok (some (keyMode, fingerprint, rest)) =>
      if keyMode = KeyMode.simple.byte then decodePlaintext J rest
      else if keyMode = KeyMode.envelope.byte then
        if ce.enabled = false then []
        else if ce.keyFingerprint P ≠ fingerprint then []
        else decodeEncrypted P J ce rest
      else []

end

theorem uintBE_putUintBE_mod (w n : Nat) : uintBE (putUintBE w n) = n % 256 ^ w := by
  rw [uintBE, putUintBE, List.reverse_reverse, uint_putUint]

theorem nextFrame_rest {data sealed rest : Bytes} (found : nextFrame data = .blob sealed rest) :
    rest.length < data.length := by
  unfold nextFrame at found
  split at found
  · cases found
  simp only at found
  split at found
  · cases found
  split at found
  · cases found
  cases found
  rw [List.length_drop, List.length_drop]
  omega

section
variable {P : Primitives} {J : Codec} {ce : CryptoEngine}

theorem encryptedTurn_shrinks : Shrinks (encryptedTurn P J ce) fun s => s.1.length := by
  intro s t more
  unfold encryptedTurn at more
  split at more
  · cases more
  · cases more
  · cases more
  · rename_i sealed rest found
    split at more
    all_goals
      cases more
      exact nextFrame_rest found

theorem allRecordsTurn_shrinks : Shrinks (allRecordsTurn P J ce) fun s => s.1.length := by
  intro s t more
  unfold allRecordsTurn at more
  split at more
  · cases more
  · cases more
  · cases more
  · rename_i sealed rest found
    split at more
    · cases more
    split at more
    · cases more
      exact nextFrame_rest found
    · cases more

end

end Tellstone.Audit
