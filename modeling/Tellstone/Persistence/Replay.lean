import Tellstone.Persistence.Wal
import Tellstone.Storage.Contents

/-! Replay of a shard's log into an engine, for both formats. -/
namespace Tellstone
open ByteStream Framing

def timeUntil (t : Int) (now : Time) : Duration := max (-2 ^ 63) (min (2 ^ 63 - 1) (t - now))

def headerTTL (header : Bytes) : Int := int64 (uint ((header.drop 8).take 8))

def headerKeyLen (header : Bytes) : Nat := uint (header.take 4)

def headerValLen (header : Bytes) : Nat := uint ((header.drop 4).take 4)

@[irreducible]
def applyRecord (P : Primitives) (now : Time) (e : Engine) (header keyBuf valBuf : Bytes) :
    Engine × Option Error :=
  let ttl := headerTTL header
  if ttl = tombstoneTTL then ((e.delete now keyBuf).1, some .recordExpired)
  else if ttl ≠ 0 then
    let duration := timeUntil ttl now
    if duration ≤ 0 then (e, some .recordExpired)
    else e.set P now keyBuf valBuf duration
  else e.set P now keyBuf valBuf 0

/-- `applied` is what was handed to applyRecord; `maxNonce` stays 0 on a plaintext log. -/
structure Progress where
  maxNonce : UInt64
  recordsRead : Nat
  recordsSkipped : Nat
  applied : List Record
  engine : Engine

def Progress.start (e : Engine) : Progress := ⟨0, 0, 0, [], e⟩

def Progress.apply (P : Primitives) (now : Time) (g : Progress) (header keyBuf valBuf : Bytes) :
    Progress × Option Error :=
  let g := { g with
    recordsRead := g.recordsRead + 1
    applied := g.applied ++ [Record.mk (headerTTL header) keyBuf valBuf] }
  let (e, err) := applyRecord P now g.engine header keyBuf valBuf
  if err = some .recordExpired then
    ({ g with engine := e, recordsSkipped := g.recordsSkipped + 1 }, none)
  else ({ g with engine := e }, err)

theorem Progress.apply_engine (P : Primitives) (now : Time) (g : Progress)
    (header keyBuf valBuf : Bytes) :
    (g.apply P now header keyBuf valBuf).1.engine =
      (applyRecord P now g.engine header keyBuf valBuf).1 := by
  simp only [Progress.apply]
  rcases applyRecord P now g.engine header keyBuf valBuf with ⟨e, err⟩
  split <;> rfl

/-- The bytes from the cursor on, and the two offsets the loop keeps beside it. -/
structure Replay extends Progress where
  rest : Bytes
  remaining : Int
  validOffset : Int

def plaintextTurn (P : Primitives) (now : Time) (fileSize : Int) (s : Replay) :
    Turn Replay Error :=
  match readFull 16 s.rest with
  | none => .stop s
  | some (header, rest) =>
    let remaining := s.remaining - 16
    let keyLen := headerKeyLen header
    let valLen := headerValLen header
    if (keyLen : Int) + valLen > remaining then .stop s
    else
      match readFull keyLen rest with
      | none => .stop s
      | some (keyBuf, rest) =>
        match readFull valLen rest with
        | none => .stop s
        | some (valBuf, rest) =>
          let remaining := remaining - (keyLen + valLen)
          .next (fun g => ⟨g, rest, remaining, fileSize - remaining⟩)
            (s.toProgress.apply P now header keyBuf valBuf)

def encryptedTurn (P : Primitives) (now : Time) (key : CipherKey) (fileSize : Int) (s : Replay) :
    Turn Replay Error :=
  match readFull 4 s.rest with
  | none => .stop s
  | some (recLenBuf, rest) =>
    let recLen := uint recLenBuf
    if recLen < 12 + 16 then .stop s
    else
      let remaining := s.remaining - 4
      if (recLen : Int) > remaining then .stop s
      else
        match readFull recLen rest with
        | none => .stop s
        | some (record, rest) =>
          let remaining := remaining - recLen
          let nonce := record.take 12
          let ctr := counterOf nonce
          let g := { s.toProgress with maxNonce := if ctr > s.maxNonce then ctr else s.maxNonce }
          match (CryptoEngine.chacha key).openWithCounter P nonce (record.drop 12) with
          | .error _ => .stop { s with toProgress := g }
          | .ok plaintext =>
            if plaintext.length < 16 then .stop { s with toProgress := g }
            else
              let header := plaintext.take 16
              let keyLen := headerKeyLen header
              let valLen := headerValLen header
              if keyLen + valLen ≠ plaintext.length - 16 then
                .stop ⟨{ g with recordsRead := g.recordsRead + 1 }, rest, remaining,
                  fileSize - remaining⟩
              else
                let keyBuf := (plaintext.drop 16).take keyLen
                let valBuf := (plaintext.drop (16 + keyLen)).take valLen
                .next (fun g => ⟨g, rest, remaining, fileSize - remaining⟩)
                  (g.apply P now header keyBuf valBuf)

def readNonceSidecar (file : Option Bytes) : UInt64 :=
  match readFull 8 (file.getD []) with
  | some (buf, _) => counterOf buf
  | none => 0

def writeNonceSidecar (d : Disk) (ctr : UInt64) : Disk :=
  { d with nonce := some (putUint 8 ctr.toNat) }

/-- A replay's outcome; `applied` are the records it handed to applyRecord. -/
structure Replayed where
  storage : Storage
  engine : Engine
  applied : List Record
  err : Option Error

namespace Storage

def finishReplay (s : Storage) (fileSize validOffset : Int) : Storage :=
  if validOffset < fileSize then s.setWal (s.wal.take validOffset.toNat) else s

def replayWALPlaintext (P : Primitives) (now : Time) (s : Storage) (e : Engine) : Replayed :=
  let fileSize : Int := s.wal.length
  let (r, err) := loop (plaintextTurn P now fileSize) (fun r => r.rest.length)
    ⟨.start e, s.wal, fileSize, 0⟩
  match err with
  | some err => ⟨s, r.engine, r.applied, some err⟩
  | none => ⟨s.finishReplay fileSize r.validOffset, r.engine, r.applied, none⟩

def replayWALEncrypted (P : Primitives) (now : Time) (key : CipherKey) (h : ShardHandle)
    (s : Storage) (e : Engine) : Replayed :=
  let fileSize : Int := s.wal.length
  let (r, err) := loop (encryptedTurn P now key fileSize) (fun r => r.rest.length)
    ⟨.start e, s.wal.drop walMagicLen, fileSize - walMagicLen, walMagicLen⟩
  match err with
  | some err => ⟨s, r.engine, r.applied, some err⟩
  | none =>
    let walCtr := r.maxNonce + 1
    let sidecarCtr := readNonceSidecar s.disk.nonce
    let walCtr := if sidecarCtr > walCtr then sidecarCtr else walCtr
    let s := { s with
      disk := writeNonceSidecar s.disk walCtr
      handle := some { h with nonceCtr := walCtr } }
    ⟨s.finishReplay fileSize r.validOffset, r.engine, r.applied, none⟩

def replayWAL (P : Primitives) (now : Time) (s : Storage) (e : Engine) : Replayed :=
  match s.handle with
  | none => ⟨s, e, [], some (.shardNotOpened s.shardID)⟩
  | some h =>
    match h.mode with
    | .encrypted key => s.replayWALEncrypted P now key h e
    | _ => s.replayWALPlaintext P now e

end Storage

section
variable {r : Record}

theorem headerKeyLen_header (h : r.Short) : headerKeyLen r.header = r.key.length := by
  have small : r.key.length < 256 ^ 4 := by
    have := h.key
    simp only [maxUint32] at this
    omega
  simp only [headerKeyLen, Record.header, List.append_assoc]
  rw [List.take_left' (putUint_length 4 _), uint_putUint_of_lt small]

theorem headerValLen_header (h : r.Short) : headerValLen r.header = r.value.length := by
  have small : r.value.length < 256 ^ 4 := by
    have := h.value
    simp only [maxUint32] at this
    omega
  simp only [headerValLen, Record.header, List.append_assoc]
  rw [List.drop_left' (putUint_length 4 _), List.take_left' (putUint_length 4 _),
    uint_putUint_of_lt small]

theorem headerTTL_header (h : r.Fits) : headerTTL r.header = r.ttlNano := by
  simp only [headerTTL, Record.header]
  rw [List.drop_left' (by simp), List.take_of_length_le (by simp),
    uint_putUint_of_lt (word64_lt _), int64_word64 h.ttlLow h.ttlHigh]

end

def Progress.eat (P : Primitives) (now : Time) (g : Progress) (r : Record) :
    Progress × Option Error :=
  g.apply P now r.header r.key r.value

/-- A logged record; on an encrypted log with the counter it was sealed under. -/
structure LogEntry where
  ctr : UInt64
  record : Record
  deriving DecidableEq, Repr

namespace LogEntry

def bytes (P : Primitives) (key : CipherKey) (shardID : Nat) (r : LogEntry) : Bytes :=
  putUint 4 (sealedLen r.record) ++ counterNonce r.ctr shardID ++
    P.aeadSeal key (counterNonce r.ctr shardID) r.record.bytes

structure Fits (r : LogEntry) : Prop where
  record : r.record.Fits
  size : sealedLen r.record ≤ maxUint32

theorem bytes_length {P : Primitives} (law : P.Lawful) (key : CipherKey) (shardID : Nat)
    (r : LogEntry) : (r.bytes P key shardID).length = 4 + sealedLen r.record := by
  simp [bytes, sealedLen, law.seal_length]

theorem uint_recLen (r : LogEntry) (fits : r.Fits) :
    uint (putUint 4 (sealedLen r.record)) = sealedLen r.record := by
  apply uint_putUint_of_lt
  have := fits.size
  simp only [maxUint32] at this
  omega

end LogEntry

def Progress.eatSealed (P : Primitives) (now : Time) (g : Progress) (r : LogEntry) :
    Progress × Option Error :=
  { g with maxNonce := if r.ctr > g.maxNonce then r.ctr else g.maxNonce }.eat P now r.record

def Replay.at (fileSize : Int) (g : Progress) (rest : Bytes) : Replay :=
  ⟨g, rest, rest.length, fileSize - rest.length⟩

theorem plaintextTurn_shrinks (P : Primitives) (now : Time) (fileSize : Int) :
    Shrinks (plaintextTurn P now fileSize) (fun r => r.rest.length) := by
  intro s t more
  rcases readHeader : readFull 16 s.rest with _ | ⟨header, rest⟩
  · simp [plaintextTurn, readHeader] at more
  simp only [plaintextTurn, readHeader] at more
  split at more
  · cases more
  rcases readKey : readFull (headerKeyLen header) rest with _ | ⟨keyBuf, rest'⟩
  · simp [readKey] at more
  simp only [readKey] at more
  rcases readVal : readFull (headerValLen header) rest' with _ | ⟨valBuf, rest''⟩
  · simp [readVal] at more
  simp only [readVal] at more
  rw [Turn.next_eq_more more]
  simp only [length_of_readFull readHeader, length_of_readFull readKey, length_of_readFull readVal]
  omega

theorem encryptedTurn_shrinks (P : Primitives) (now : Time) (key : CipherKey) (fileSize : Int) :
    Shrinks (encryptedTurn P now key fileSize) (fun r => r.rest.length) := by
  intro s t more
  rcases readLen : readFull 4 s.rest with _ | ⟨recLenBuf, rest⟩
  · simp [encryptedTurn, readLen] at more
  simp only [encryptedTurn, readLen] at more
  split at more
  · cases more
  split at more
  · cases more
  rcases readRecord : readFull (uint recLenBuf) rest with _ | ⟨record, rest'⟩
  · simp [readRecord] at more
  simp only [readRecord] at more
  split at more
  · cases more
  split at more
  · cases more
  split at more
  · cases more
  rw [Turn.next_eq_more more]
  simp only [length_of_readFull readLen, length_of_readFull readRecord]
  omega

theorem plaintextTurn_eats (P : Primitives) (now : Time) (fileSize : Int) :
    Eats (plaintextTurn P now fileSize) (Replay.at fileSize) Record.bytes Record.Fits
      (Progress.eat P now) := by
  intro g r rest fits
  have readHeader : readFull 16 (r.bytes ++ rest) =
      some (r.header, r.key ++ (r.value ++ rest)) := by
    rw [Record.bytes, List.append_assoc, List.append_assoc, readFull_append _ r.header_length]
  have size : ((r.bytes ++ rest).length : Int) =
      16 + (r.key.length + r.value.length) + rest.length := by
    rw [List.length_append, r.bytes_length]
    omega
  simp only [plaintextTurn, Replay.at, readHeader, size, headerKeyLen_header fits.short,
    headerValLen_header fits.short, readFull_append _ rfl]
  rw [if_neg (by omega)]
  have left : (16 + (r.key.length + r.value.length : Int) + rest.length - 16 -
      (r.key.length + r.value.length)) = rest.length := by omega
  simp only [left, Progress.eat]

theorem encryptedTurn_eats {P : Primitives} (law : P.Lawful) (now : Time) (key : CipherKey)
    (shardID : Nat) (fileSize : Int) :
    Eats (encryptedTurn P now key fileSize) (Replay.at fileSize) (LogEntry.bytes P key shardID)
      LogEntry.Fits (Progress.eatSealed P now) := by
  intro g r rest fits
  let nonce := counterNonce r.ctr shardID
  let ciphertext := P.aeadSeal key nonce r.record.bytes
  have nonceLen : nonce.length = 12 := counterNonce_length _ _
  have cipherLen : (nonce ++ ciphertext).length = sealedLen r.record := by
    rw [List.length_append, nonceLen, law.seal_length key nonce _ nonceLen, sealedLen]
  have readLen : readFull 4 (r.bytes P key shardID ++ rest) =
      some (putUint 4 (sealedLen r.record), (nonce ++ ciphertext) ++ rest) := by
    rw [LogEntry.bytes, List.append_assoc, List.append_assoc,
      readFull_append _ (putUint_length 4 _), List.append_assoc]
  have recLen := r.uint_recLen fits
  have large : 28 + 16 ≤ sealedLen r.record := by
    rw [sealedLen, r.record.bytes_length]
    omega
  have ctr : counterOf nonce = r.ctr := counterOf_putUint r.ctr (putUint 4 shardID)
  have opened : (CryptoEngine.chacha key).openWithCounter P nonce ciphertext = .ok r.record.bytes :=
    CryptoEngine.open_seal law key nonceLen r.record.bytes
  have size : ((r.bytes P key shardID ++ rest).length : Int) =
      4 + sealedLen r.record + rest.length := by
    rw [List.length_append, LogEntry.bytes_length law]
    omega
  simp only [encryptedTurn, Replay.at, readLen, recLen, size]
  rw [if_neg (by omega), if_neg (by omega)]
  simp only [readFull_append _ cipherLen, List.take_left' nonceLen, List.drop_left' nonceLen, ctr,
    opened, Record.bytes_take, headerKeyLen_header fits.record.short,
    headerValLen_header fits.record.short,
    ← List.drop_drop, Record.bytes_drop]
  rw [if_neg (by rw [r.record.bytes_length]; omega), if_neg (by rw [r.record.bytes_length]; omega)]
  have left : (4 + (sealedLen r.record : Int) + rest.length - 4 - sealedLen r.record) =
      rest.length := by omega
  simp only [left, Progress.eatSealed, Progress.eat, List.take_left, List.drop_left,
    List.take_length]

theorem cut_header {tail : Bytes} (cut : Cut Record.bytes Record.Fits tail)
    (long : 16 ≤ tail.length) :
    ∃ r : Record, r.Fits ∧ readFull 16 tail = some (r.header, tail.drop 16) ∧
      (tail.drop 16).length < r.key.length + r.value.length := by
  rcases cut with rfl | ⟨r, fits, pre, less⟩
  · simp at long
  · have header : tail.take 16 = r.header := by
      rw [← r.bytes_take, List.prefix_iff_eq_take.mp pre, List.take_take,
        Nat.min_eq_left (by omega)]
    rw [r.bytes_length] at less
    refine ⟨r, fits, by rw [readFull, if_pos (by omega), header], ?_⟩
    rw [List.length_drop]
    omega

theorem plaintextTurn_stops (P : Primitives) (now : Time) (fileSize : Int) {tail : Bytes}
    (cut : Cut Record.bytes Record.Fits tail) (g : Progress) :
    plaintextTurn P now fileSize (Replay.at fileSize g tail) = .stop (Replay.at fileSize g tail) := by
  by_cases short : tail.length < 16
  · simp only [plaintextTurn, Replay.at, readFull_short short]
  · obtain ⟨r, fits, readHeader, less⟩ := cut_header cut (by omega)
    rw [List.length_drop] at less
    simp only [plaintextTurn, Replay.at, readHeader, headerKeyLen_header fits.short,
      headerValLen_header fits.short]
    rw [if_pos (by omega)]

theorem encryptedTurn_stops {P : Primitives} (law : P.Lawful) (now : Time) (key : CipherKey)
    (shardID : Nat) (fileSize : Int) {tail : Bytes}
    (cut : Cut (LogEntry.bytes P key shardID) LogEntry.Fits tail) (g : Progress) :
    encryptedTurn P now key fileSize (Replay.at fileSize g tail) =
      .stop (Replay.at fileSize g tail) := by
  by_cases short : tail.length < 4
  · simp only [encryptedTurn, Replay.at, readFull_short short]
  · rcases cut with rfl | ⟨r, fits, pre, less⟩
    · simp at short
    · have lenBuf : tail.take 4 = putUint 4 (sealedLen r.record) := by
        rw [List.prefix_iff_eq_take.mp pre, List.take_take, Nat.min_eq_left (by omega),
          LogEntry.bytes, List.append_assoc, List.take_left' (putUint_length 4 _)]
      have readLen : readFull 4 tail = some (putUint 4 (sealedLen r.record), tail.drop 4) := by
        rw [readFull, if_pos (by omega), lenBuf]
      have recLen := r.uint_recLen fits
      rw [LogEntry.bytes_length law] at less
      simp only [encryptedTurn, Replay.at, readLen, recLen]
      rw [if_neg (by rw [sealedLen, r.record.bytes_length]; omega), if_pos (by omega)]

end Tellstone
