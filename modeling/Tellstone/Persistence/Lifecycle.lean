import Tellstone.Persistence.Faults
import Tellstone.Persistence.Snapshot

/-! Opening a shard, loading it with the migration to an encrypted log, and the
snapshot call. -/
namespace Tellstone
open ByteStream Framing

/-- A load's outcome. The engine is the one handed in, as far as it was filled. -/
structure Loaded where
  storage : Storage
  engine : Engine
  err : Option Error

namespace Storage

def openShard (s : Storage) (crypto : CryptoEngine) : Storage × Option Error :=
  if !s.enabled then (s, none)
  else
    let file := s.wal
    let s := s.setWal file
    if file.length = 0 then
      match crypto with
      | .chacha key => ({ s.setWal walMagic with handle := some ⟨.encrypted key, 0⟩ }, none)
      | .passThrough => ({ s with handle := some ⟨.plaintext, 0⟩ }, none)
    else
      match readFull walMagicLen file with
      | none => (s, some .readWALHeader)
      | some (magic, _) =>
        if magic = walMagic then
          match crypto with
          | .passThrough => (s, some (.encryptedWithoutKey s.shardID))
          | .chacha key => ({ s with handle := some ⟨.encrypted key, 0⟩ }, none)
        else
          match crypto with
          | .chacha key => ({ s with handle := some ⟨.migrating key, 0⟩ }, none)
          | .passThrough => ({ s with handle := some ⟨.plaintext, 0⟩ }, none)

/-- Zero without a sealing engine, also while a migration is pending. -/
def fingerprint (P : Primitives) (s : Storage) : Bytes :=
  match s.handle.bind fun h => h.mode.crypto with
  | some crypto => crypto.keyFingerprint P
  | none => zeroFingerprint

def loadSnapshot (P : Primitives) (now : Time) (s : Storage) (e : Engine) :
    Engine × Option Error :=
  if snapshotExists s.disk.snap then
    let (e, err) := snapshotRead P now (s.disk.snap.getD []) e (s.fingerprint P)
    (e, err.map (.loadSnapshot s.shardID))
  else (e, none)

def migrateRecord (P : Primitives) (pending : CipherKey) (atRestEncrypted : Bool) (fault : Fault)
    (f : SealedFile) (entry : Sigma fun _ : Bytes => Item) : SealedFile × Option Error :=
  let walValue :=
    if atRestEncrypted then (CryptoEngine.chacha pending).decryptInPlace P entry.2.value
    else .ok entry.2.value
  match walValue with
  | .error err => (f, some (.migrationDecrypt entry.1 err))
  | .ok value =>
    let (f, err) := appendRecordEncrypted P fault f (.set entry.1 value entry.2.expiration)
    (f, err.map (.migrationWrite entry.1))

def migrateRecords (P : Primitives) (pending : CipherKey) (atRestEncrypted : Bool)
    (faults : Nat → Fault) (f : SealedFile) (entries : List (Sigma fun _ : Bytes => Item)) :
    SealedFile × Option Error :=
  foldUntil (fun f entry => migrateRecord P pending atRestEncrypted (faults entry.2) f entry.1) f
    entries.zipIdx

def migrationFile (s : Storage) (pending : CipherKey) : SealedFile :=
  ⟨walMagic, pending, 0, s.shardID, s.sealed⟩

def migrate (P : Primitives) (now : Time) (order : MapOrder) (faults : Nat → Fault) (s : Storage)
    (pending : CipherKey) (e : Engine) : Storage × Option Error :=
  let (f, err) := migrateRecords P pending e.crypto.enabled faults (s.migrationFile pending)
    (e.forEach now order)
  match err with
  | some err =>
    ({ s with disk := { s.disk with migrating := none }, sealed := f.sealed }, some err)
  | none =>
    ({ s with
      disk := writeNonceSidecar { s.disk with wal := some f.bytes, migrating := none } f.nonceCtr
      handle := some ⟨.encrypted pending, f.nonceCtr⟩
      sealed := f.sealed }, none)

def loadShard (P : Primitives) (now : Time) (order : MapOrder) (faults : Nat → Fault)
    (s : Storage) (e : Engine) : Loaded :=
  if !s.enabled then ⟨s, e, none⟩
  else
    match s.loadSnapshot P now e with
    | (e, some err) => ⟨s, e, some err⟩
    | (e, none) =>
      let r := s.replayWAL P now e
      match r.err with
      | some err => ⟨r.storage, r.engine, some err⟩
      | none =>
        match r.storage.handle with
        | some ⟨.migrating pending, _⟩ =>
          let (s, err) := r.storage.migrate P now order faults pending r.engine
          ⟨s, r.engine, err⟩
        | _ => ⟨r.storage, r.engine, none⟩

/-- The first half of Snapshot: the engine is serialized and the file replaced. -/
def dumpSnapshot (P : Primitives) (now : Time) (order : MapOrder) (fork : Bool) (s : Storage)
    (e : Engine) : Storage × Option Error :=
  match snapshotForkDump P now order fork e (s.fingerprint P) with
  | .error err => (s, some err)
  | .ok file => ({ s with disk := { s.disk with snap := some file } }, none)

def truncateWALLocked (s : Storage) (h : ShardHandle) (offset : Nat) : Storage :=
  let s :=
    match h.mode with
    | .encrypted _ => { s with disk := writeNonceSidecar s.disk h.nonceCtr }
    | _ => s
  s.setWal (s.wal.take offset)

/-- The second half, under the shard mutex: the boundary is the file size at that time. -/
def finishSnapshot (s : Storage) : Storage × Option Error :=
  match s.handle with
  | none => (s, some (.shardNotOpened s.shardID))
  | some h => (s.truncateWALLocked h s.wal.length, none)

def snapshot (P : Primitives) (now : Time) (order : MapOrder) (fork : Bool) (s : Storage)
    (e : Engine) : Storage × Option Error :=
  if !s.enabled then (s, none)
  else
    match s.dumpSnapshot P now order fork e with
    | (s, some err) => (s, some err)
    | (s, none) => s.finishSnapshot

def fresh (shardID : Nat) : Storage := ⟨true, shardID, .empty, none, []⟩

def crash (s : Storage) : Storage := { s with handle := none }

end Storage

def CryptoEngine.walMode : CryptoEngine → WalMode
  | .passThrough => .plaintext
  | .chacha key => .encrypted key

@[simp] theorem CryptoEngine.walMode_writable (crypto : CryptoEngine) :
    crypto.walMode.writable = true := by
  cases crypto <;> rfl

/-- At one length of its first key a plaintext log starts with the encrypted magic. -/
def magicClash : List Record → Bool
  | [] => false
  | r :: _ => decide (r.key.length = uint walMagic)

theorem putUint_eq_walMagic {n : Nat} (small : n ≤ maxUint32) :
    putUint 4 n = walMagic ↔ n = uint walMagic := by
  constructor
  · intro same
    rw [← same, uint_putUint_of_lt]
    simp only [maxUint32] at small
    omega
  · rintro rfl
    decide

theorem Record.take_magic (r : Record) (rest : Bytes) :
    (r.bytes ++ rest).take walMagicLen = putUint 4 r.key.length := by
  rw [Record.bytes, Record.header]
  simp only [List.append_assoc]
  exact List.take_left' (putUint_length 4 _)

namespace Storage

/-- Without a key: an empty file, or four bytes that are not the magic. -/
def openable (s : Storage) (crypto : CryptoEngine) : Bool :=
  crypto.enabled || decide (s.wal = []) ||
    (decide (walMagicLen ≤ s.wal.length) && decide (s.wal.take walMagicLen ≠ walMagic))

def opened (s : Storage) (crypto : CryptoEngine) : Storage :=
  { s with handle := some ⟨crypto.walMode, 0⟩ }

section
variable {P : Primitives} {s : Storage} {rs : List LogEntry} {crypto : CryptoEngine}

theorem openShard_file {rest : Bytes} (enabled : s.enabled = true)
    (wal : s.disk.wal = some (crypto.walMode.magic ++ rest)) :
    if s.openable crypto then s.openShard crypto = (s.opened crypto, none)
    else ∃ err, s.openShard crypto = (s, some err) := by
  have same : s.setWal s.wal = s := by rw [setWal, Storage.wal, wal, Option.getD_some, ← wal]
  have file : s.wal = crypto.walMode.magic ++ rest := by rw [Storage.wal, wal, Option.getD_some]
  have on : (!s.enabled) = false := by simp [enabled]
  simp only [openShard, on, same, Bool.false_eq_true, ↓reduceIte]
  cases crypto with
  | chacha key =>
    have read : readFull walMagicLen s.wal = some (walMagic, rest) := by
      rw [file]
      exact readFull_append _ rfl
    have some : ¬ s.wal.length = 0 := by
      rw [file]
      simp [CryptoEngine.walMode, WalMode.magic, walMagic]
    simp only [if_neg some, read, ↓reduceIte]
    simp [openable, CryptoEngine.enabled, opened, CryptoEngine.walMode]
  | passThrough =>
    simp only [openable, CryptoEngine.enabled, Bool.false_or, Bool.or_eq_true, Bool.and_eq_true,
      decide_eq_true_eq, List.length_eq_zero_iff]
    by_cases empty : s.wal = []
    · simp [empty, opened, CryptoEngine.walMode]
    by_cases long : walMagicLen ≤ s.wal.length
    · simp only [empty, long, false_or, true_and, ↓reduceIte, readFull]
      by_cases magic : s.wal.take walMagicLen = walMagic
      · simp [magic]
      · simp [magic, opened, CryptoEngine.walMode]
    · simp [empty, long, readFull]

theorem openShard_openable {rest : Bytes} (enabled : s.enabled = true)
    (wal : s.disk.wal = some (crypto.walMode.magic ++ rest))
    (openable : s.openable crypto = true) : s.openShard crypto = (s.opened crypto, none) := by
  simpa [openable] using openShard_file enabled wal

theorem openable_records (wal : s.disk.wal =
      some (crypto.walMode.magic ++ rs.flatMap (crypto.walMode.frame P s.shardID)))
    (fits : ∀ r ∈ rs, crypto.walMode.Fits r) :
    s.openable crypto = (crypto.enabled || !magicClash (rs.map (·.record))) := by
  cases crypto with
  | chacha key => rfl
  | passThrough =>
    have file : s.wal = rs.flatMap (WalMode.frame P s.shardID .plaintext) := by
      rw [Storage.wal, wal]
      rfl
    cases rs with
    | nil => simp [openable, file, magicClash]
    | cons r rest =>
      have frames : s.wal = r.record.bytes ++ rest.flatMap (WalMode.frame P s.shardID .plaintext) :=
        file
      have size : walMagicLen ≤ s.wal.length := by
        rw [frames, List.length_append, r.record.bytes_length, walMagicLen]
        omega
      have some : s.wal ≠ [] := by
        intro empty
        simp [empty, walMagicLen] at size
      have start : s.wal.take walMagicLen = putUint 4 r.record.key.length := by
        rw [frames, Record.take_magic]
      have clash := putUint_eq_walMagic (fits r List.mem_cons_self).record.key
      simp [openable, CryptoEngine.enabled, some, size, start, clash, magicClash]

theorem loadSnapshot_congr (P : Primitives) (now : Time) {s s' : Storage}
    (snap : s.disk.snap = s'.disk.snap) (shardID : s.shardID = s'.shardID)
    (handle : s.handle = s'.handle) : s.loadSnapshot P now = s'.loadSnapshot P now := by
  funext e
  simp only [loadSnapshot, fingerprint, snap, shardID, handle]

theorem loadShard_log (law : P.Lawful) {h : ShardHandle} {tail : Bytes}
    (enabled : s.enabled = true) (logs : s.Logs P h rs tail)
    (cut : Cut (h.mode.frame P s.shardID) h.mode.Fits tail) (writable : h.mode.writable = true)
    (now : Time) (order : MapOrder) (faults : Nat → Fault) {e e' : Engine}
    (snap : s.loadSnapshot P now e = (e', none)) :
    s.loadShard P now order faults e =
      match replayRecords P now e' (rs.map (·.record)) with
      | (e'', none) => ⟨s.recovered P h rs, e'', none⟩
      | (e'', some err) => ⟨s, e'', some err⟩ := by
  have spec := replayWAL_log law logs cut now e'
  simp only [loadShard, enabled, snap, Bool.not_true, Bool.false_eq_true, ↓reduceIte]
  rcases replayed : replayRecords P now e' (rs.map (·.record)) with ⟨e'', _ | err⟩
  · simp only [replayed] at spec ⊢
    obtain ⟨⟨mode, ctr⟩, same, kept⟩ := recovered_logs logs
    simp only [spec, kept.handle]
    rw [← same] at writable
    cases mode with
    | migrating key => simp [WalMode.writable] at writable
    | plaintext => rfl
    | encrypted key => rfl
  · simp only [replayed] at spec ⊢
    obtain ⟨applied, ran⟩ := spec
    simp only [ran]

end

theorem dumpSnapshot_frame (P : Primitives) (now : Time) (order : MapOrder) (fork : Bool)
    (s : Storage) (e : Engine) :
    ∃ snap, (s.dumpSnapshot P now order fork e).1 =
      { s with disk := { s.disk with snap := snap } } := by
  unfold dumpSnapshot
  split
  · exact ⟨s.disk.snap, rfl⟩
  · exact ⟨_, rfl⟩

theorem dumpSnapshot_wal (P : Primitives) (now : Time) (order : MapOrder) (fork : Bool)
    (s : Storage) (e : Engine) : (s.dumpSnapshot P now order fork e).1.wal = s.wal := by
  obtain ⟨snap, dumped⟩ := dumpSnapshot_frame P now order fork s e
  rw [dumped]
  rfl

theorem finishSnapshot_frame (s : Storage) :
    s.finishSnapshot.1.enabled = s.enabled ∧ s.finishSnapshot.1.sealed = s.sealed ∧
      s.finishSnapshot.1.shardID = s.shardID ∧ s.finishSnapshot.1.handle = s.handle ∧
      (s.finishSnapshot.1.disk.wal = s.disk.wal ∨ s.finishSnapshot.1.disk.wal = some s.wal) := by
  unfold finishSnapshot
  cases handle : s.handle with
  | none => exact ⟨rfl, rfl, rfl, handle, Or.inl rfl⟩
  | some h =>
    rcases h with ⟨mode, ctr⟩
    cases mode with
    | encrypted key => exact ⟨rfl, rfl, rfl, handle, Or.inr (congrArg some List.take_length)⟩
    | plaintext => exact ⟨rfl, rfl, rfl, handle, Or.inr (congrArg some List.take_length)⟩
    | migrating key => exact ⟨rfl, rfl, rfl, handle, Or.inr (congrArg some List.take_length)⟩

theorem finishSnapshot_snap (s : Storage) : s.finishSnapshot.1.disk.snap = s.disk.snap := by
  unfold finishSnapshot
  cases s.handle with
  | none => rfl
  | some h =>
    rcases h with ⟨mode, ctr⟩
    cases mode <;> rfl

theorem finishSnapshot_wal (s : Storage) : s.finishSnapshot.1.wal = s.wal := by
  obtain ⟨-, -, -, -, wal | wal⟩ := finishSnapshot_frame s
  · rw [Storage.wal, wal, Storage.wal]
  · rw [Storage.wal, wal, Option.getD_some]

theorem finishSnapshot_ok {s : Storage} {h : ShardHandle} (handle : s.handle = some h) :
    s.finishSnapshot.2 = none := by
  simp only [finishSnapshot, handle]

theorem snapshot_frame (P : Primitives) (now : Time) (order : MapOrder) (fork : Bool)
    (s : Storage) (e : Engine) :
    let s' := (s.snapshot P now order fork e).1
    s'.enabled = s.enabled ∧ s'.sealed = s.sealed ∧ s'.shardID = s.shardID ∧
      s'.handle = s.handle ∧ (s'.disk.wal = s.disk.wal ∨ s'.disk.wal = some s.wal) := by
  simp only [snapshot]
  split
  · exact ⟨rfl, rfl, rfl, rfl, Or.inl rfl⟩
  obtain ⟨snap, dumped⟩ := dumpSnapshot_frame P now order fork s e
  rcases ran : s.dumpSnapshot P now order fork e with ⟨s', _ | err⟩
  · simp only [ran] at dumped ⊢
    subst dumped
    exact finishSnapshot_frame { s with disk := { s.disk with snap := snap } }
  · simp only [ran] at dumped ⊢
    subst dumped
    exact ⟨rfl, rfl, rfl, rfl, Or.inl rfl⟩

section
variable {P : Primitives} {s : Storage} {mode : WalMode} {rs : List LogEntry} {tail : Bytes}

theorem Open.dumpSnapshot (opened : s.Open P mode rs tail) (now : Time) (order : MapOrder)
    (fork : Bool) (e : Engine) : (s.dumpSnapshot P now order fork e).1.Open P mode rs tail := by
  obtain ⟨snap, dumped⟩ := dumpSnapshot_frame P now order fork s e
  obtain ⟨enabled, writable, h, same, logs⟩ := opened
  rw [dumped]
  exact ⟨enabled, writable, h, same, logs.handle, logs.wal, logs.fits⟩

theorem Open.finishSnapshot (opened : s.Open P mode rs tail) :
    s.finishSnapshot.1.Open P mode rs tail := by
  obtain ⟨enabled, -, id, handle, wal⟩ := finishSnapshot_frame s
  obtain ⟨on, writable, h, same, logs⟩ := opened
  have file : s.finishSnapshot.1.disk.wal = s.disk.wal := by
    rcases wal with wal | wal
    · exact wal
    · rw [wal, Storage.wal, logs.wal]
      rfl
  exact ⟨enabled.trans on, writable, h, same, handle.trans logs.handle,
    by rw [file, id, logs.wal], logs.fits⟩

theorem Open.snapshot (opened : s.Open P mode rs tail) (now : Time) (order : MapOrder)
    (fork : Bool) (e : Engine) : (s.snapshot P now order fork e).1.Open P mode rs tail := by
  have on : (!s.enabled) = false := by simp [opened.enabled]
  have dumped := opened.dumpSnapshot now order fork e
  simp only [Storage.snapshot, on, Bool.false_eq_true, ↓reduceIte]
  rcases ran : s.dumpSnapshot P now order fork e with ⟨s', _ | err⟩
  · rw [ran] at dumped
    exact dumped.finishSnapshot
  · rw [ran] at dumped
    exact dumped

end

end Storage

end Tellstone
