import Tellstone.Persistence.Lifecycle

/-! The migration of a plaintext log: every entry of the engine is sealed under
the counters 0, 1, 2, … into a new log. -/
namespace Tellstone
open ByteStream Framing

def LogEntry.sealCall (key : CipherKey) (shardID : Nat) (r : LogEntry) : SealCall :=
  ⟨key, counterNonce r.ctr shardID, r.record.bytes⟩

theorem LogEntry.fits_of_size {ctr : UInt64} {c : LogCall} (size : sealedLen c.record ≤ maxUint32) :
    LogEntry.Fits ⟨ctr, c.record⟩ := by
  have length := size
  rw [sealedLen, c.record.bytes_length] at length
  have key : c.record.key.length ≤ maxUint32 := by omega
  have value : c.record.value.length ≤ maxUint32 := by omega
  exact ⟨⟨key, value, c.record_ttl_range.1, c.record_ttl_range.2⟩, size⟩

/-- A file whose counter was used for `rs`, one after another, from 0 on. -/
structure SealedFile.Counts (f : SealedFile) (before : List SealCall) (rs : List LogEntry) :
    Prop where
  sealed : f.sealed = before ++ rs.map (LogEntry.sealCall f.key f.shardID)
  ctrs : rs.map (fun r => r.ctr.toNat) = List.range rs.length
  next : f.nonceCtr.toNat = rs.length

theorem SealedFile.Counts.counted {f : SealedFile} {before : List SealCall} {rs : List LogEntry}
    (counts : f.Counts before rs) (small : rs.length + 1 < 2 ^ 64) (r : Record) (written : Bytes) :
    (f.counted r written).Counts before (rs ++ [⟨f.nonceCtr, r⟩]) where
  sealed := by simp [SealedFile.counted, counts.sealed, LogEntry.sealCall]
  ctrs := by simp [counts.ctrs, counts.next, List.range_succ]
  next := by
    simp only [SealedFile.counted, UInt64.toNat_add, counts.next, List.length_append,
      List.length_singleton]
    exact Nat.mod_eq_of_lt small

namespace Storage

section
variable {P : Primitives} (pending : CipherKey) (atRest : Bool) (f : SealedFile)

def migrated (P : Primitives) (pending : CipherKey) (atRest : Bool)
    (entry : Sigma fun _ : Bytes => Item) : Except Error Record :=
  (if atRest then (CryptoEngine.chacha pending).decryptInPlace P entry.2.value
    else .ok entry.2.value).map fun value => .set entry.1 value entry.2.expiration

theorem migrateRecord_room (law : P.Lawful) {entry : Sigma fun _ : Bytes => Item} {r : Record}
    (value : migrated P pending atRest entry = .ok r) (room : sealedLen r ≤ maxUint32) :
    migrateRecord P pending atRest none f entry =
      (f.counted r (LogEntry.bytes P f.key f.shardID ⟨f.nonceCtr, r⟩), none) := by
  simp only [migrateRecord]
  simp only [migrated] at value
  rcases plain : (if atRest then (CryptoEngine.chacha pending).decryptInPlace P entry.2.value
    else .ok entry.2.value) with err | v
  · rw [plain] at value
    cases value
  · rw [plain] at value
    cases value
    simp only [appendRecordEncrypted_room law none f room]
    rfl

theorem migrateRecord_cases (law : P.Lawful) (fault : Fault)
    (entry : Sigma fun _ : Bytes => Item) :
    (∃ r, migrated P pending atRest entry = .ok r ∧ LogEntry.Fits ⟨f.nonceCtr, r⟩ ∧
        migrateRecord P pending atRest fault f entry =
          (f.counted r (LogEntry.bytes P f.key f.shardID ⟨f.nonceCtr, r⟩), none)) ∨
      (∃ r written err, migrateRecord P pending atRest fault f entry =
        (f.counted r written, some err)) ∨
      ∃ err, migrateRecord P pending atRest fault f entry = (f, some err) := by
  simp only [migrateRecord, migrated]
  rcases value : (if atRest then (CryptoEngine.chacha pending).decryptInPlace P entry.2.value
    else .ok entry.2.value) with err | v
  · exact Or.inr (Or.inr ⟨_, rfl⟩)
  · simp only
    by_cases room : sealedLen (Record.set entry.1 v entry.2.expiration) ≤ maxUint32
    · rw [appendRecordEncrypted_room law fault f room]
      cases fault with
      | none =>
        have call : Record.set entry.1 v entry.2.expiration =
            (LogCall.write entry.1 v entry.2.expiration).record := rfl
        rw [call] at room ⊢
        exact Or.inl ⟨_, rfl, LogEntry.fits_of_size room, rfl⟩
      | some n => exact Or.inr (Or.inl ⟨_, _, _, rfl⟩)
    · rw [appendRecordEncrypted_noRoom law fault f (by omega)]
      exact Or.inr (Or.inl ⟨_, _, _, rfl⟩)

variable {pending atRest f} {before : List SealCall} {rs : List LogEntry}

theorem migrateRecords_counts (law : P.Lawful) (faults : Nat → Fault) (start : Nat)
    (entries : List (Sigma fun _ : Bytes => Item)) (counts : f.Counts before rs)
    (small : rs.length + entries.length < 2 ^ 64) {f' : SealedFile} {err : Option Error}
    (ran : foldUntil (fun f entry => migrateRecord P pending atRest (faults entry.2) f entry.1) f
      (entries.zipIdx start) = (f', err)) :
    ∃ added, f'.Counts before (rs ++ added) ∧ f'.key = f.key ∧ f'.shardID = f.shardID ∧
      added.length ≤ entries.length ∧
      (err = none → f'.bytes = f.bytes ++ added.flatMap (LogEntry.bytes P f.key f.shardID) ∧
        ∀ r ∈ added, r.Fits) := by
  induction entries generalizing f rs start with
  | nil =>
    cases ran
    exact ⟨[], by simpa using counts, rfl, rfl, Nat.le_refl _, by simp⟩
  | cons entry entries ih =>
    simp only [List.length_cons] at small ⊢
    simp only [List.zipIdx_cons, foldUntil] at ran
    obtain ⟨r, value, fits, whole⟩ | ⟨r, written, failure, lost⟩ | ⟨failure, refused⟩ :=
      migrateRecord_cases pending atRest f law (faults start) entry
    · simp only [whole] at ran
      obtain ⟨added, counts', key, id, length, done⟩ :=
        ih (start + 1) (counts.counted (by omega) r _) (by simp; omega) ran
      refine ⟨⟨f.nonceCtr, r⟩ :: added, by simpa using counts', key, id, by simpa using length, ?_⟩
      intro ok
      obtain ⟨bytes, allFit⟩ := done ok
      refine ⟨?_, List.forall_mem_cons.mpr ⟨fits, allFit⟩⟩
      simp [bytes, SealedFile.counted]
    · simp only [lost] at ran
      cases ran
      exact ⟨[⟨f.nonceCtr, r⟩], counts.counted (by omega) r _, rfl, rfl, by simp, by simp⟩
    · simp only [refused] at ran
      cases ran
      exact ⟨[], by simpa using counts, rfl, rfl, Nat.zero_le _, by simp⟩

theorem migrateRecords_complete (law : P.Lawful) (faults : Nat → Fault) {start : Nat}
    {entries : List (Sigma fun _ : Bytes => Item)} {f' : SealedFile}
    (ran : foldUntil (fun f entry => migrateRecord P pending atRest (faults entry.2) f entry.1) f
      (entries.zipIdx start) = (f', none)) :
    ∃ added : List LogEntry,
      f'.bytes = f.bytes ++ added.flatMap (LogEntry.bytes P f.key f.shardID) ∧
      (∀ r ∈ added, r.Fits) ∧
      entries.map (migrated P pending atRest) = added.map fun r => .ok r.record := by
  induction entries generalizing f start with
  | nil =>
    cases ran
    exact ⟨[], by simp, by simp, rfl⟩
  | cons entry entries ih =>
    simp only [List.zipIdx_cons, foldUntil] at ran
    rcases migrateRecord_cases pending atRest f law (faults start) entry with
      ⟨r, value, fits, whole⟩ | ⟨r, written, failure, lost⟩ | ⟨failure, refused⟩
    · simp only [whole] at ran
      obtain ⟨added, bytes, allFit, values⟩ := ih ran
      refine ⟨⟨f.nonceCtr, r⟩ :: added, ?_, List.forall_mem_cons.mpr ⟨fits, allFit⟩, ?_⟩
      · simp [bytes, SealedFile.counted]
      · simp [value, values]
    · simp [lost] at ran
    · simp [refused] at ran

theorem migrateRecords_whole (law : P.Lawful) (pending : CipherKey) (atRest : Bool)
    (start : Nat) {entries : List (Sigma fun _ : Bytes => Item)} {calls : List LogCall}
    (values : entries.map (migrated P pending atRest) = calls.map fun c => .ok c.record)
    (short : ∀ c ∈ calls, sealedLen c.record ≤ maxUint32) (f : SealedFile) :
    ∃ (f' : SealedFile) (added : List LogEntry),
      foldUntil (fun f entry => migrateRecord P pending atRest none f entry.1) f
        (entries.zipIdx start) = (f', none) ∧
      f'.bytes = f.bytes ++ added.flatMap (LogEntry.bytes P f.key f.shardID) ∧
      (∀ r ∈ added, r.Fits) ∧ added.map (·.record) = calls.map LogCall.record := by
  induction entries generalizing f calls start with
  | nil =>
    obtain rfl : calls = [] := by simpa using values.symm
    exact ⟨f, [], rfl, by simp, by simp, rfl⟩
  | cons entry entries ih =>
    cases calls with
    | nil => simp at values
    | cons c calls =>
      simp only [List.map_cons, List.cons.injEq] at values
      have room : sealedLen c.record ≤ maxUint32 := short c List.mem_cons_self
      have whole := migrateRecord_room pending atRest f law values.1 room
      obtain ⟨f', added, ran, bytes, fits, records⟩ :=
        ih (start + 1) values.2 (fun b mem => short b (List.mem_cons_of_mem c mem))
          (f.counted c.record (LogEntry.bytes P f.key f.shardID ⟨f.nonceCtr, c.record⟩))
      refine ⟨f', ⟨f.nonceCtr, c.record⟩ :: added, ?_, ?_, ?_, ?_⟩
      · simpa [List.zipIdx_cons, foldUntil, whole] using ran
      · simp [bytes, SealedFile.counted]
      · exact List.forall_mem_cons.mpr ⟨LogEntry.fits_of_size room, fits⟩
      · simp [records]

end

end Storage

namespace Engine

def size (e : Engine) : Nat := e.items.entries.length

section
variable (P : Primitives) (now : Time) (e : Engine) (key value : Bytes) (ttl : Duration)

theorem size_insert_le {e' : Engine} {item : Item} (h : e'.items = e.items.insert key item) :
    e'.size ≤ e.size + 1 := by
  have erased := (List.kerase_sublist key e.items.entries).length_le
  simp only [size, h, AList.entries_insert, List.length_cons]
  omega

theorem size_set_le : (e.set P now key value ttl).1.size ≤ e.size + 1 := by
  cases room : e.full (key.length + e.crypto.storedSize value.length) with
  | true =>
    rw [set_full room]
    exact Nat.le_succ _
  | false => exact size_insert_le e key (set_items room)

theorem size_setRaw_le : (e.setRaw now key value ttl).1.size ≤ e.size + 1 := by
  cases room : e.full (key.length + value.length) with
  | true => simp [setRaw, room]
  | false => exact size_insert_le e key (setRaw_items room)

theorem size_setFromBuffer_le (keyLen : Int) :
    (e.setFromBuffer P now value keyLen ttl).1.size ≤ e.size + 1 := by
  simp only [setFromBuffer]
  split
  · exact Nat.le_succ _
  · split
    · exact size_set_le P now e _ _ ttl
    · split
      · exact Nat.le_succ _
      · exact size_insert_le e _ (by rw [register_items, put_items])

theorem size_delete_le : (e.delete now key).1.size ≤ e.size := by
  simp only [size, delete_items]
  exact (List.kerase_sublist key e.items.entries).length_le

theorem size_forEach_le (order : MapOrder) : (e.forEach now order).length ≤ e.size := by
  rw [forEach, size, ← (order.perm e.items.entries).length_eq]
  exact List.length_filter_le _ _

end

end Engine

theorem size_applyRecord_le (P : Primitives) (now : Time) (e : Engine) (header key value : Bytes) :
    (applyRecord P now e header key value).1.size ≤ e.size + 1 := by
  simp only [applyRecord]
  split
  · exact Nat.le_succ_of_le (e.size_delete_le now key)
  · split
    · split
      · exact Nat.le_succ _
      · exact e.size_set_le P now key value _
    · exact e.size_set_le P now key value _

theorem size_restoreEntry_le (P : Primitives) (now : Time) (e : Engine) (entry : DecodedEntry) :
    (restoreEntry P now e entry).1.size ≤ e.size + 1 := by
  have stored (duration : Duration) :
      (restoreValue P now e entry duration).1.size ≤ e.size + 1 := by
    simp only [restoreValue]
    split
    · exact e.size_setRaw_le now _ _ _
    · exact e.size_setFromBuffer_le P now _ _ _
  simp only [restoreEntry]
  split
  · split
    · exact Nat.le_succ _
    · exact stored _
  · exact stored _

theorem entryTurn_bound (bound : Nat) (s : SnapshotScan)
    (inv : s.entries.length + s.rest.length ≤ bound) :
    (entryTurn s).state.entries.length + (entryTurn s).state.rest.length ≤ bound := by
  rcases readHeader : readFull 16 s.rest with _ | ⟨entryBuf, rest⟩
  · simp only [entryTurn, readHeader]
    split <;> exact inv
  simp only [entryTurn, readHeader]
  split
  · exact inv
  rcases readBuf : readFull (headerKeyLen entryBuf + headerValLen entryBuf) rest
    with _ | ⟨buf, rest'⟩
  · exact inv
  · have a := length_of_readFull readHeader
    have b := length_of_readFull readBuf
    simp only [Turn.state, List.length_append, List.length_singleton]
    omega

theorem size_restoreEntries_le (P : Primitives) (now : Time) (e : Engine)
    (entries : List DecodedEntry) :
    (foldUntil (restoreEntry P now) e entries).1.size ≤ e.size + entries.length := by
  let Inv (e' : Engine) (left : List DecodedEntry) : Prop :=
    e'.size + left.length ≤ e.size + entries.length
  have keeps (e' : Engine) (entry : DecodedEntry) (left : List DecodedEntry)
      (inv : Inv e' (entry :: left)) : Inv (restoreEntry P now e' entry).1 left := by
    have step := size_restoreEntry_le P now e' entry
    simp only [Inv, List.length_cons] at inv ⊢
    omega
  have weakens (e' : Engine) (left : List DecodedEntry) (inv : Inv e' left) : Inv e' [] := by
    simp only [Inv, List.length_nil] at inv ⊢
    omega
  exact foldUntil_invariant Inv keeps weakens e entries (Nat.le_refl _)

theorem size_restoreScan_le (P : Primitives) (now : Time) (e : Engine) (fileChecksum : Nat)
    {outcome : SnapshotScan × Option Error} {n : Nat}
    (few : outcome.1.entries.length + outcome.1.rest.length ≤ n) :
    (restoreScan P now e fileChecksum outcome).1.size ≤ e.size + n := by
  simp only [restoreScan]
  split
  · exact Nat.le_add_right _ _
  · rename_i scan
    split
    · exact Nat.le_add_right _ _
    · have restored := size_restoreEntries_le P now e scan.entries
      simp only at few
      omega

theorem size_snapshotRead_le (P : Primitives) (now : Time) (file : Bytes) (e : Engine)
    (fp : Bytes) : (snapshotRead P now file e fp).1.size ≤ e.size + file.length := by
  have nothing : e.size ≤ e.size + file.length := Nat.le_add_right _ _
  rcases readBase : readFull snapBaseHeader file with _ | ⟨baseHdr, rest⟩
  · simp only [snapshotRead, readBase]
    exact nothing
  simp only [snapshotRead, readBase]
  split
  · exact nothing
  split
  · exact nothing
  split
  · exact nothing
  rename_i fileFingerprint body readFp
  split
  · exact nothing
  have bodyLen : body.length ≤ file.length := by
    have base := length_of_readFull readBase
    split at readFp
    · have := length_of_readFull readFp
      omega
    · cases readFp
      omega
  have scanned (remaining : Int) (hashed : Bytes) :=
    loop_invariant (fun s : SnapshotScan => s.entries.length + s.rest.length ≤ file.length)
      (entryTurn_bound file.length) (fun s => s.rest.length) ⟨body, remaining, hashed, []⟩
      (by simpa using bodyLen)
  exact size_restoreScan_le P now e _ (scanned _ _)

theorem plaintextTurn_bound (P : Primitives) (now : Time) (fileSize : Int) (bound : Nat)
    (s : Replay) (inv : s.engine.size + s.rest.length ≤ bound) :
    (plaintextTurn P now fileSize s).state.engine.size +
      (plaintextTurn P now fileSize s).state.rest.length ≤ bound := by
  rcases readHeader : readFull 16 s.rest with _ | ⟨header, rest⟩
  · simp only [plaintextTurn, readHeader]
    exact inv
  simp only [plaintextTurn, readHeader]
  split
  · exact inv
  rcases readKey : readFull (headerKeyLen header) rest with _ | ⟨keyBuf, rest'⟩
  · exact inv
  simp only
  rcases readVal : readFull (headerValLen header) rest' with _ | ⟨valBuf, rest''⟩
  · exact inv
  have a := length_of_readFull readHeader
  have b := length_of_readFull readKey
  have c := length_of_readFull readVal
  have step := size_applyRecord_le P now s.engine header keyBuf valBuf
  simp only [Turn.state_next, Progress.apply_engine]
  omega

theorem Storage.size_replayWALPlaintext_le (P : Primitives) (now : Time) (s : Storage)
    (e : Engine) : (s.replayWALPlaintext P now e).engine.size ≤ e.size + s.wal.length := by
  have looped := loop_invariant
    (fun r : Replay => r.engine.size + r.rest.length ≤ e.size + s.wal.length)
    (plaintextTurn_bound P now s.wal.length (e.size + s.wal.length)) (fun r => r.rest.length)
    ⟨.start e, s.wal, s.wal.length, 0⟩ (Nat.le_refl _)
  simp only [replayWALPlaintext]
  split
  · exact Nat.le_trans (Nat.le_add_right _ _) looped
  · exact Nat.le_trans (Nat.le_add_right _ _) looped

end Tellstone
