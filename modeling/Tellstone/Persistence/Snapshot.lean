import Tellstone.Persistence.Replay

/-! The snapshot file: written from an engine, in a child process or in place,
and read back into one. -/
namespace Tellstone
open ByteStream Framing

def snapMagic : Bytes := [0x54, 0x53, 0x4e, 0x53]

def snapVersion1 : Nat := 1

def snapVersion2 : Nat := 2

def snapBaseHeader : Nat := 32

def snapHeader : Nat := 48

def zeroFingerprint : Bytes := List.replicate 16 0

def buildSnapshotHeader (createdAt : Time) (fingerprint : Bytes) (keyCount checksum : Nat) :
    Bytes :=
  snapMagic ++ putUint 4 snapVersion2 ++ putUint 8 keyCount ++ putUint 8 createdAt ++
    putUint 8 checksum ++ fingerprint

def snapshotFile (P : Primitives) (createdAt : Time) (fingerprint : Bytes) (keyCount : Nat)
    (body : Bytes) : Bytes :=
  let checksum := P.xxhash (buildSnapshotHeader createdAt fingerprint 0 0 ++ body)
  buildSnapshotHeader createdAt fingerprint keyCount checksum.toNat ++ body

/-- An entry has the layout of a plaintext log record, around the stored value. -/
def snapshotRecord (entry : Sigma fun _ : Bytes => Item) : Record :=
  .set entry.1 entry.2.value entry.2.expiration

def serializeEngineToWriter (now : Time) (order : MapOrder) (e : Engine) : Bytes :=
  (e.forEach now order).flatMap fun entry => (snapshotRecord entry).bytes

def snapshotWrite (P : Primitives) (now : Time) (order : MapOrder) (e : Engine)
    (fingerprint : Bytes) : Bytes :=
  snapshotFile P now fingerprint (e.forEach now order).length (serializeEngineToWriter now order e)

/-- The child between two entries: the pipe, and what it has written. -/
structure ChildState where
  pipe : Bytes
  body : Bytes
  keyCount : Nat

def childTurn (s : ChildState) : Turn ChildState Error :=
  match readFull 16 s.pipe with
  | none => if s.pipe = [] then .stop s else .fail s .snapshotChild
  | some (entryBuf, pipe) =>
    match readFull (headerKeyLen entryBuf) pipe with
    | none => .fail s .snapshotChild
    | some (keyBuf, pipe) =>
      match readFull (headerValLen entryBuf) pipe with
      | none => .fail s .snapshotChild
      | some (valBuf, pipe) =>
        .more ⟨pipe, s.body ++ (entryBuf ++ keyBuf ++ valBuf), s.keyCount + 1⟩

def snapshotChildWrite (P : Primitives) (now : Time) (pipe fingerprint : Bytes) :
    Except Error Bytes :=
  let (s, err) := loop childTurn (fun s => s.pipe.length) ⟨pipe, [], 0⟩
  match err with
  | some err => .error err
  | none => .ok (snapshotFile P now fingerprint s.keyCount s.body)

def snapshotForkDump (P : Primitives) (now : Time) (order : MapOrder) (fork : Bool) (e : Engine)
    (fingerprint : Bytes) : Except Error Bytes :=
  if fork then snapshotChildWrite P now (serializeEngineToWriter now order e) fingerprint
  else .ok (snapshotWrite P now order e fingerprint)

def snapshotExists (file : Option Bytes) : Bool :=
  match readFull 4 (file.getD []) with
  | some (hdr, _) => decide (hdr = snapMagic)
  | none => false

structure DecodedEntry where
  kvBuf : Bytes
  keyLen : Nat
  ttlNano : Int
  deriving DecidableEq, Repr

/-- The read loop between two entries. `hashed` is everything given to xxhash. -/
structure SnapshotScan where
  rest : Bytes
  remaining : Int
  hashed : Bytes
  entries : List DecodedEntry

def entryTurn (s : SnapshotScan) : Turn SnapshotScan Error :=
  match readFull 16 s.rest with
  | none => if s.rest = [] then .stop s else .fail s .snapshotEntryHeader
  | some (entryBuf, rest) =>
    let keyLen := headerKeyLen entryBuf
    let valLen := headerValLen entryBuf
    if (keyLen : Int) + valLen > s.remaining - 16 then
      .fail s (.snapshotLengths keyLen valLen s.remaining)
    else
      match readFull (keyLen + valLen) rest with
      | none => .fail s .snapshotEntry
      | some (buf, rest) =>
        .more ⟨rest, s.remaining - (16 + (keyLen + valLen)), s.hashed ++ (entryBuf ++ buf),
          s.entries ++ [⟨buf, keyLen, headerTTL entryBuf⟩]⟩

def restoreValue (P : Primitives) (now : Time) (e : Engine) (entry : DecodedEntry)
    (duration : Duration) : Engine × Option Error :=
  let (e, err) :=
    if e.crypto.enabled then
      e.setRaw now (entry.kvBuf.take entry.keyLen) (entry.kvBuf.drop entry.keyLen) duration
    else e.setFromBuffer P now entry.kvBuf entry.keyLen duration
  (e, err.map .snapshotSet)

def restoreEntry (P : Primitives) (now : Time) (e : Engine) (entry : DecodedEntry) :
    Engine × Option Error :=
  if entry.ttlNano ≠ 0 then
    let duration := timeUntil entry.ttlNano now
    if duration ≤ 0 then (e, none) else restoreValue P now e entry duration
  else restoreValue P now e entry 0

def restoreScan (P : Primitives) (now : Time) (e : Engine) (fileChecksum : Nat)
    (outcome : SnapshotScan × Option Error) : Engine × Option Error :=
  match outcome with
  | (_, some err) => (e, some err)
  | (scan, none) =>
    let computed := (P.xxhash scan.hashed).toNat
    if computed ≠ fileChecksum then (e, some (.snapshotChecksum fileChecksum computed))
    else foldUntil (restoreEntry P now) e scan.entries

def snapshotRead (P : Primitives) (now : Time) (file : Bytes) (e : Engine) (fp : Bytes) :
    Engine × Option Error :=
  match readFull snapBaseHeader file with
  | none => (e, some .snapshotHeader)
  | some (baseHdr, rest) =>
    if baseHdr.take 4 ≠ snapMagic then (e, some (.snapshotMagic (baseHdr.take 4)))
    else
      let version := uint ((baseHdr.drop 4).take 4)
      if version ≠ snapVersion1 ∧ version ≠ snapVersion2 then (e, some (.snapshotVersion version))
      else
        let fingerprint :=
          if version = snapVersion2 then readFull 16 rest else some (zeroFingerprint, rest)
        match fingerprint with
        | none => (e, some .snapshotFingerprintRead)
        | some (fileFingerprint, rest) =>
          if fileFingerprint ≠ fp then (e, some .snapshotFingerprint)
          else
            let fileChecksum := uint ((baseHdr.drop 24).take 8)
            let hashed := baseHdr.take 8 ++ putUint 8 0 ++ (baseHdr.drop 16).take 8 ++ putUint 8 0 ++
              (if version = snapVersion2 then fileFingerprint else [])
            let headerBytes := if version = snapVersion2 then snapHeader else snapBaseHeader
            restoreScan P now e fileChecksum (loop entryTurn (fun s => s.rest.length)
              ⟨rest, (file.length : Int) - headerBytes, hashed, []⟩)

theorem childTurn_shrinks : Shrinks childTurn (fun s => s.pipe.length) := by
  intro s t more
  rcases readHeader : readFull 16 s.pipe with _ | ⟨entryBuf, pipe⟩
  · simp only [childTurn, readHeader] at more
    split at more <;> cases more
  simp only [childTurn, readHeader] at more
  rcases readKey : readFull (headerKeyLen entryBuf) pipe with _ | ⟨keyBuf, pipe'⟩
  · simp [readKey] at more
  simp only [readKey] at more
  rcases readVal : readFull (headerValLen entryBuf) pipe' with _ | ⟨valBuf, pipe''⟩
  · simp [readVal] at more
  simp only [readVal] at more
  injection more with more
  subst more
  simp only [length_of_readFull readHeader, length_of_readFull readKey, length_of_readFull readVal]
  omega

theorem childTurn_eats :
    Eats childTurn (fun (g : Bytes × Nat) pipe => ⟨pipe, g.1, g.2⟩) Record.bytes Record.Short
      (fun g r => ((g.1 ++ r.bytes, g.2 + 1), none)) := by
  intro g r rest short
  have readHeader : readFull 16 (r.bytes ++ rest) =
      some (r.header, r.key ++ (r.value ++ rest)) := by
    rw [Record.bytes, List.append_assoc, List.append_assoc, readFull_append _ r.header_length]
  simp only [childTurn, readHeader, headerKeyLen_header short, headerValLen_header short,
    readFull_append _ rfl]
  rfl

theorem entryTurn_shrinks : Shrinks entryTurn (fun s => s.rest.length) := by
  intro s t more
  rcases readHeader : readFull 16 s.rest with _ | ⟨entryBuf, rest⟩
  · simp only [entryTurn, readHeader] at more
    split at more <;> cases more
  simp only [entryTurn, readHeader] at more
  split at more
  · cases more
  rcases readBuf : readFull (headerKeyLen entryBuf + headerValLen entryBuf) rest
    with _ | ⟨buf, rest'⟩
  · simp [readBuf] at more
  simp only [readBuf] at more
  injection more with more
  subst more
  simp only [length_of_readFull readHeader, length_of_readFull readBuf]
  omega

def Record.decoded (r : Record) : DecodedEntry := ⟨r.key ++ r.value, r.key.length, r.ttlNano⟩

theorem entryTurn_eats :
    Eats entryTurn
      (fun (g : Bytes × List DecodedEntry) rest => ⟨rest, rest.length, g.1, g.2⟩)
      Record.bytes Record.Fits (fun g r => ((g.1 ++ r.bytes, g.2 ++ [r.decoded]), none)) := by
  intro g r rest fits
  have readHeader : readFull 16 (r.bytes ++ rest) =
      some (r.header, (r.key ++ r.value) ++ rest) := by
    rw [Record.bytes, List.append_assoc, List.append_assoc, readFull_append _ r.header_length,
      List.append_assoc]
  have size : ((r.bytes ++ rest).length : Int) =
      16 + (r.key.length + r.value.length) + rest.length := by
    rw [List.length_append, r.bytes_length]
    omega
  simp only [entryTurn, readHeader, size, headerKeyLen_header fits.short,
    headerValLen_header fits.short, headerTTL_header fits, readFull_append _ List.length_append]
  rw [if_neg (by omega)]
  have left : (16 + (r.key.length + r.value.length : Int) + rest.length -
      (16 + (r.key.length + r.value.length))) = rest.length := by omega
  simp only [left, Record.decoded, Record.bytes, List.append_assoc]
  rfl

theorem foldUntil_child (g : Bytes × Nat) (rs : List Record) :
    foldUntil (fun (g : Bytes × Nat) (r : Record) =>
        (((g.1 ++ r.bytes, g.2 + 1), none) : (Bytes × Nat) × Option Error)) g rs =
      ((g.1 ++ rs.flatMap Record.bytes, g.2 + rs.length), none) := by
  induction rs generalizing g with
  | nil => simp [foldUntil]
  | cons r rs ih =>
    simp only [foldUntil, ih, List.flatMap_cons, List.length_cons, List.append_assoc]
    congr 2
    omega

theorem foldUntil_entries (g : Bytes × List DecodedEntry) (rs : List Record) :
    foldUntil (fun (g : Bytes × List DecodedEntry) (r : Record) =>
        (((g.1 ++ r.bytes, g.2 ++ [r.decoded]), none) :
          (Bytes × List DecodedEntry) × Option Error)) g rs =
      ((g.1 ++ rs.flatMap Record.bytes, g.2 ++ rs.map Record.decoded), none) := by
  induction rs generalizing g with
  | nil => simp [foldUntil]
  | cons r rs ih =>
    simp only [foldUntil, ih, List.flatMap_cons, List.map_cons, List.append_assoc,
      List.singleton_append]

theorem snapshotChildWrite_records (P : Primitives) (now : Time) (fingerprint : Bytes)
    {rs : List Record} (short : ∀ r ∈ rs, r.Short) :
    snapshotChildWrite P now (rs.flatMap Record.bytes) fingerprint =
      .ok (snapshotFile P now fingerprint rs.length (rs.flatMap Record.bytes)) := by
  have stops (g : Bytes × Nat) : childTurn ⟨[], g.1, g.2⟩ = .stop ⟨[], g.1, g.2⟩ := by
    simp [childTurn, readFull]
  have looped := loop_log childTurn_shrinks childTurn_eats stops rs short ([], 0)
  simp only [foldUntil_child, List.nil_append, List.append_nil, Nat.zero_add] at looped
  simp only [snapshotChildWrite, looped]

/-- The fields of a base header, at the offsets they are read from. -/
structure BaseHeader (baseHdr : Bytes) (createdAt checksum : Nat) : Prop where
  length : baseHdr.length = snapBaseHeader
  magic : baseHdr.take 4 = snapMagic
  version : uint ((baseHdr.drop 4).take 4) = snapVersion2
  checksum : (baseHdr.drop 24).take 8 = putUint 8 checksum
  hashed : baseHdr.take 8 ++ putUint 8 0 ++ (baseHdr.drop 16).take 8 ++ putUint 8 0 =
    snapMagic ++ putUint 4 snapVersion2 ++ putUint 8 0 ++ putUint 8 createdAt ++ putUint 8 0

theorem baseHeader_fields (keyCount createdAt checksum : Nat) :
    BaseHeader (snapMagic ++ putUint 4 snapVersion2 ++ putUint 8 keyCount ++
      putUint 8 createdAt ++ putUint 8 checksum) createdAt checksum where
  length := by simp [snapMagic, snapBaseHeader]
  magic := by simp [snapMagic]
  version := by
    simp [snapMagic]
    decide
  checksum := by
    simp [snapMagic, List.drop_append, List.take_of_length_le, List.drop_eq_nil_of_le]
  hashed := by
    simp [snapMagic, List.drop_append, List.take_append, List.take_of_length_le]

theorem snapshotRead_file (P : Primitives) (now createdAt : Time) (e : Engine) {fp : Bytes}
    (size : fp.length = 16) {rs : List Record} (fits : ∀ r ∈ rs, r.Fits) (keyCount : Nat) :
    snapshotRead P now (snapshotFile P createdAt fp keyCount (rs.flatMap Record.bytes)) e fp =
      foldUntil (fun e r => restoreEntry P now e r.decoded) e rs := by
  let body := rs.flatMap Record.bytes
  let checksum := P.xxhash (buildSnapshotHeader createdAt fp 0 0 ++ body)
  let base := snapMagic ++ putUint 4 snapVersion2 ++ putUint 8 keyCount ++ putUint 8 createdAt ++
    putUint 8 checksum.toNat
  have fields : BaseHeader base createdAt checksum.toNat := baseHeader_fields _ _ _
  have file : snapshotFile P createdAt fp keyCount body = base ++ (fp ++ body) := by
    simp only [snapshotFile, buildSnapshotHeader, List.append_assoc, base, checksum]
  have readBase : readFull snapBaseHeader (base ++ (fp ++ body)) = some (base, fp ++ body) :=
    readFull_append _ fields.length
  have readFp : readFull 16 (fp ++ body) = some (fp, body) := readFull_append _ size
  have stored : uint (putUint 8 checksum.toNat) = checksum.toNat :=
    uint_putUint_of_lt checksum.toNat_lt
  have hashed : base.take 8 ++ putUint 8 0 ++ (base.drop 16).take 8 ++ putUint 8 0 ++ fp =
      buildSnapshotHeader createdAt fp 0 0 := by
    rw [fields.hashed, buildSnapshotHeader]
  have left : ((base ++ (fp ++ body)).length : Int) - snapHeader = body.length := by
    simp only [List.length_append, fields.length, size, snapBaseHeader, snapHeader]
    omega
  have stops (g : Bytes × List DecodedEntry) :
      entryTurn ⟨[], ([] : Bytes).length, g.1, g.2⟩ =
        .stop ⟨[], ([] : Bytes).length, g.1, g.2⟩ := by
    simp [entryTurn, readFull]
  have looped := loop_log entryTurn_shrinks entryTurn_eats stops rs fits
    (buildSnapshotHeader createdAt fp 0 0, [])
  simp only [foldUntil_entries, List.nil_append, List.append_nil] at looped
  rw [file]
  simp only [snapshotRead, readBase, fields.magic, fields.version, readFp, fields.checksum, hashed,
    stored, left, ne_eq, not_true_eq_false, and_false, ↓reduceIte]
  simp only [body, looped, restoreScan]
  rw [if_neg (not_not_intro rfl), foldUntil_map]

theorem serializeEngineToWriter_eq (now : Time) (order : MapOrder) (e : Engine) :
    serializeEngineToWriter now order e =
      ((e.forEach now order).map snapshotRecord).flatMap Record.bytes := by
  rw [serializeEngineToWriter, List.flatMap_map]

theorem snapshotRecords_fit {entries : List (Sigma fun _ : Bytes => Item)}
    (fits : ∀ entry ∈ entries, (snapshotRecord entry).Fits) :
    ∀ r ∈ entries.map snapshotRecord, r.Fits := by
  intro r mem
  obtain ⟨entry, found, rfl⟩ := List.mem_map.mp mem
  exact fits entry found

theorem snapshotForkDump_eq (P : Primitives) (now : Time) (order : MapOrder) (fork : Bool)
    (e : Engine) (fingerprint : Bytes)
    (fits : ∀ entry ∈ e.forEach now order, (snapshotRecord entry).Fits) :
    snapshotForkDump P now order fork e fingerprint =
      .ok (snapshotFile P now fingerprint (e.forEach now order).length
        (((e.forEach now order).map snapshotRecord).flatMap Record.bytes)) := by
  unfold snapshotForkDump
  split
  · rw [serializeEngineToWriter_eq,
      snapshotChildWrite_records P now fingerprint fun r mem => (snapshotRecords_fit fits r mem).short,
      List.length_map]
  · rw [snapshotWrite, serializeEngineToWriter_eq]

end Tellstone
