import Tellstone.Lib.Durability
import Tellstone.Shard.Upgrade

/-! The migration of a plaintext log, file operation by file operation. Wherever it is
interrupted, a restart finds the old log or the whole new one. -/
namespace Tellstone
open ByteStream ExpiringMap Framing

namespace Engine

/-- An engine without a ceiling whose expiry instants survive a record header. -/
structure Restored (key : CipherKey) (e : Engine) : Prop where
  cipher : e.crypto = .chacha key
  unbounded : e.maxBytes = 0
  dated : ∀ entry ∈ e.items.entries, ∀ t, entry.2.expiration = some t → 0 < t ∧ t < 2 ^ 63

variable {P : Primitives} {key : CipherKey} {now : Time} {e : Engine}

theorem restored_new (interval : Duration) (slots : Nat) (key : CipherKey) (draws : Nat) :
    (Engine.new interval slots 0 (.chacha key) draws).Restored key :=
  ⟨rfl, rfl, fun entry mem => by cases mem⟩

theorem Restored.delete (restored : e.Restored key) (k : Bytes) :
    (e.delete now k).1.Restored key := by
  refine ⟨(delete_crypto now e k).trans restored.cipher, by simp [restored.unbounded], ?_⟩
  intro entry mem
  rw [delete_items] at mem
  exact restored.dated entry ((List.kerase_sublist k _).subset mem)

theorem Restored.set (restored : e.Restored key) (k value : Bytes) {ttl : Duration}
    (dated : ∀ t, expiry now ttl = some t → 0 < t ∧ t < 2 ^ 63) :
    (e.set P now k value ttl).1.Restored key := by
  have room : e.full (k.length + e.crypto.storedSize value.length) = false :=
    full_eq_false_of_unbounded restored.unbounded _
  refine ⟨set_crypto.trans restored.cipher, set_maxBytes.trans restored.unbounded, ?_⟩
  intro entry mem
  rw [set_items room, AList.entries_insert] at mem
  rcases List.mem_cons.mp mem with rfl | old
  · exact dated
  · exact restored.dated entry ((List.kerase_sublist k _).subset old)

end Engine

theorem expiry_dated {ttl : Int} {now t : Nat} (small : ttl < 2 ^ 63)
    (ahead : ¬ timeUntil ttl now ≤ 0) (instant : expiry now (timeUntil ttl now) = some t) :
    0 < t ∧ t < 2 ^ 63 := by
  rw [expiry, if_pos (Int.not_le.mp ahead)] at instant
  have same : now + (timeUntil ttl now).toNat = t := Option.some.inj instant
  change ¬ max (-2 ^ 63 : Int) (min (2 ^ 63 - 1) (ttl - now)) ≤ 0 at ahead
  have until_eq : timeUntil ttl now = ttl - now := by
    change max (-2 ^ 63 : Int) (min (2 ^ 63 - 1) (ttl - now)) = ttl - now
    omega
  rw [until_eq] at same
  omega

theorem headerTTL_lt (header : Bytes) : headerTTL header < 2 ^ 63 := by
  have bound := uint_lt ((header.drop 8).take 8)
  have short : ((header.drop 8).take 8).length ≤ 8 := by
    rw [List.length_take]
    exact Nat.min_le_left _ _
  have small : uint ((header.drop 8).take 8) < 2 ^ 64 :=
    Nat.lt_of_lt_of_le bound (Nat.pow_le_pow_right (n := 256) (by decide) short)
  exact (int64_range small).2

theorem Engine.Restored.applyRecord {P : Primitives} {key : CipherKey} {now : Time} {e : Engine}
    (restored : e.Restored key) (header k value : Bytes) :
    (applyRecord P now e header k value).1.Restored key := by
  simp only [Tellstone.applyRecord]
  split
  · exact restored.delete k
  · split
    · split
      · exact restored
      · rename_i ahead
        exact restored.set k value fun t => expiry_dated (headerTTL_lt header) ahead
    · apply restored.set k value
      intro t no
      simp [expiry] at no

theorem plaintextTurn_restored (P : Primitives) (now : Time) (fileSize : Int) {key : CipherKey}
    (s : Replay) (restored : s.engine.Restored key) :
    (plaintextTurn P now fileSize s).state.engine.Restored key ∧
      ∀ t e, plaintextTurn P now fileSize s ≠ .fail t e := by
  rcases readHeader : readFull 16 s.rest with _ | ⟨header, rest⟩
  · simp [plaintextTurn, readHeader, Turn.state, restored]
  simp only [plaintextTurn, readHeader]
  split
  · simp [Turn.state, restored]
  rcases readKey : readFull (headerKeyLen header) rest with _ | ⟨keyBuf, rest'⟩
  · simp [Turn.state, restored]
  simp only
  rcases readVal : readFull (headerValLen header) rest' with _ | ⟨valBuf, rest''⟩
  · simp [Turn.state, restored]
  have applied : (s.toProgress.apply P now header keyBuf valBuf).2 = none := by
    have unbounded := applyRecord_unbounded P now restored.unbounded header keyBuf valBuf
    simp only [Progress.apply]
    rcases unbounded.1 with none | skipped
    · simp [none]
    · simp [skipped]
  constructor
  · simp only [Turn.state_next, Progress.apply_engine]
    exact restored.applyRecord header keyBuf valBuf
  · exact Turn.next_ne_fail applied

namespace Storage

variable {P : Primitives} {s : Storage} {key : CipherKey} {ctr : UInt64} {now : Time} {e : Engine}

theorem finishReplay_frame (s : Storage) (fileSize validOffset : Int) {wal : Bytes}
    (file : s.disk.wal = some wal) : ∃ kept, s.finishReplay fileSize validOffset = s.setWal kept := by
  unfold finishReplay
  split
  · exact ⟨_, rfl⟩
  · refine ⟨wal, ?_⟩
    rw [setWal, ← file]

theorem replayWAL_restored (handle : s.handle = some ⟨.migrating key, ctr⟩) {wal : Bytes}
    (file : s.disk.wal = some wal) (restored : e.Restored key) :
    (s.replayWAL P now e).err = none ∧ (s.replayWAL P now e).engine.Restored key ∧
      ∃ kept, (s.replayWAL P now e).storage = s.setWal kept := by
  let start : Replay := ⟨.start e, s.wal, s.wal.length, 0⟩
  have turns := @plaintextTurn_restored P now s.wal.length key
  have looped := loop_invariant (fun r : Replay => r.engine.Restored key)
    (fun r inv => (turns r inv).1) (fun r => r.rest.length) start restored
  have ended := loop_ok (fun r : Replay => r.engine.Restored key) (fun r inv => (turns r inv).1)
    (fun r inv => (turns r inv).2) (fun r => r.rest.length) start restored
  simp only [replayWAL, handle, replayWALPlaintext]
  generalize loop (plaintextTurn P now s.wal.length) (fun r => r.rest.length) start = outcome
    at looped ended
  obtain ⟨r, err⟩ := outcome
  cases ended
  exact ⟨rfl, looped, finishReplay_frame s _ _ file⟩

end Storage

/-- The files of a shard: shard_NNN.db, .db.migrating, .nonce and .nonce.tmp. -/
inductive ShardFile where
  | wal
  | migrating
  | nonce
  | nonceTmp
  deriving DecidableEq, Repr

def Disk.volume (d : Disk) : Durability.Volume ShardFile where
  files := [⟨d.wal.getD [], true⟩, ⟨d.migrating.getD [], true⟩, ⟨d.nonce.getD [], true⟩]
  names
    | .wal => d.wal.map fun _ => 0
    | .migrating => d.migrating.map fun _ => 1
    | .nonce => d.nonce.map fun _ => 2
    | .nonceTmp => none
  past _ := []
  bound := by
    intro name i here
    cases name <;> simp at here <;> simp <;> omega
  single := by
    intro a b i left right
    cases a <;> cases b <;> simp at left right <;> first | rfl | omega

namespace Migration
open Durability
open FileOps (Fate Prog)

/-- What the device does to the operations of one appendRecordEncrypted. -/
structure RecordFates where
  length : Fate
  nonce : Fate
  ciphertext : Fate
  sync : Fate

structure SidecarFates where
  create : Fate
  write : Fate
  sync : Fate
  close : Fate
  rename : Fate
  syncDir : Fate
  abandon : Fate
  remove : Fate

/-- And to those of the whole migration; `records i` is for the i-th entry. -/
structure Fates where
  closePlaintext : Fate
  create : Fate
  magic : Fate
  records : Nat → RecordFates
  sync : Fate
  close : Fate
  rename : Fate
  syncDir : Fate
  reopen : Fate
  abandon : Fate
  remove : Fate
  sidecar : SidecarFates

inductive Failure where
  | closePlaintext
  | create
  | reopen
  | magic
  | record (err : Error)
  | sync
  | close
  | rename
  | remove
  | syncDir
  | sidecar
  deriving DecidableEq, Repr

abbrev Files := Durability.Volume ShardFile

def writeRecord (fates : RecordFates) (mf recLen : Nat) (nonce ciphertext : Bytes) :
    Prog Error Files Unit := do
  write fates.length .io mf (putUint 4 recLen)
  write fates.nonce .io mf nonce
  write fates.ciphertext .io mf ciphertext
  sync fates.sync .io mf

def appendRecord (P : Primitives) (fates : RecordFates) (key : CipherKey) (shardID : Nat)
    (ctr : UInt64) (mf : Nat) (r : Record) : Prog Error Files Unit :=
  let nonce := counterNonce ctr shardID
  match (CryptoEngine.chacha key).sealWithCounter P nonce r.bytes with
  | .error err => Prog.throw err
  | .ok ciphertext =>
    let recLen := 12 + ciphertext.length
    if recLen > maxUint32 then Prog.throw (.recordTooLarge recLen)
    else writeRecord fates mf recLen nonce ciphertext

def migrateRecord (P : Primitives) (fates : RecordFates) (pending : CipherKey)
    (atRestEncrypted : Bool) (shardID : Nat) (ctr : UInt64) (mf : Nat)
    (entry : Sigma fun _ : Bytes => Item) : Prog Error Files Unit :=
  let walValue :=
    if atRestEncrypted then (CryptoEngine.chacha pending).decryptInPlace P entry.2.value
    else .ok entry.2.value
  match walValue with
  | .error err => Prog.throw (.migrationDecrypt entry.1 err)
  | .ok value =>
    (appendRecord P fates pending shardID ctr mf (.set entry.1 value entry.2.expiration)).mapError
      (.migrationWrite entry.1)

def migrateRecords (P : Primitives) (fates : Nat → RecordFates) (pending : CipherKey)
    (atRestEncrypted : Bool) (shardID : Nat) (mf : Nat) :
    UInt64 → List ((Sigma fun _ : Bytes => Item) × Nat) → Prog Error Files UInt64
  | ctr, [] => pure ctr
  | ctr, entry :: rest => do
    migrateRecord P (fates entry.2) pending atRestEncrypted shardID ctr mf entry.1
    migrateRecords P fates pending atRestEncrypted shardID mf (ctr + 1) rest

/-- The new file is dropped and the old one opened again; their errors are ignored. -/
def discard (fates : Fates) : Prog Failure Files Unit := do
  ignore (remove fates.remove Failure.remove ShardFile.migrating)
  ignore (openFile fates.reopen Failure.reopen ShardFile.wal)

def abandon (fates : Fates) : Prog Failure Files Unit := do
  ignore (close fates.abandon Failure.close)
  discard fates

def writeNonceSidecar (fates : SidecarFates) (ctr : UInt64) : Prog Failure Files Unit := do
  let drop := ignore (remove fates.remove Failure.sidecar ShardFile.nonceTmp)
  let giveUp : Prog Failure Files Unit := do
    ignore (close fates.abandon Failure.sidecar)
    drop
  let f ← create fates.create Failure.sidecar ShardFile.nonceTmp
  onError (write fates.write Failure.sidecar f (putUint 8 ctr.toNat)) giveUp
  onError (sync fates.sync Failure.sidecar f) giveUp
  onError (close fates.close Failure.sidecar) drop
  onError (rename fates.rename Failure.sidecar ShardFile.nonceTmp ShardFile.nonce) drop
  syncDir fates.syncDir Failure.sidecar

/-- The part of LoadShard behind a replay that left the handle waiting for a migration. -/
def migrate (P : Primitives) (fates : Fates) (pending : CipherKey) (atRestEncrypted : Bool)
    (shardID : Nat) (entries : List (Sigma fun _ : Bytes => Item)) : Prog Failure Files Unit := do
  close fates.closePlaintext Failure.closePlaintext
  let mf ← onError (create fates.create Failure.create ShardFile.migrating) do
    let _ ← openFile fates.reopen Failure.reopen ShardFile.wal
  onError (write fates.magic Failure.magic mf walMagic) (abandon fates)
  let ctr ← onError
    ((migrateRecords P fates.records pending atRestEncrypted shardID mf 0 entries.zipIdx).mapError
      .record) (abandon fates)
  onError (sync fates.sync Failure.sync mf) (abandon fates)
  onError (close fates.close Failure.close) (discard fates)
  onError (rename fates.rename Failure.rename ShardFile.migrating ShardFile.wal) (discard fates)
  ignore (syncDir fates.syncDir Failure.syncDir)
  let _ ← openFile fates.reopen Failure.reopen ShardFile.wal
  ignore (writeNonceSidecar fates.sidecar ctr)

section
variable {P : Primitives} {good : Bytes → Prop} {mf : Nat}

abbrev Safe (good : Bytes → Prop) (v : Files) : Prop := v.Safe .wal good

abbrev Wrote (good : Bytes → Prop) (mf : Nat) (bytes : Bytes) (v : Files) : Prop :=
  v.Draft .wal good .migrating mf fun f => f.bytes = bytes

theorem writeRecord_guards (fates : RecordFates) (recLen : Nat) (nonce ciphertext bytes : Bytes) :
    Guards (Safe good) (Wrote good mf bytes) (writeRecord fates mf recLen nonce ciphertext)
      fun _ => Wrote good mf (bytes ++ (putUint 4 recLen ++ nonce ++ ciphertext)) := by
  have differ : ShardFile.migrating ≠ .wal := by decide
  apply Guards.bind (guards_write _ _ differ _)
  intro _
  apply Guards.bind (guards_write _ _ differ _)
  intro _
  apply Guards.bind (guards_write _ _ differ _)
  intro _
  refine (guards_sync _ _ differ).conseq (fun v start => start) ?_
  intro _ v synced
  obtain ⟨file, stored, same, -⟩ := synced.file
  refine ⟨synced.safe, synced.here, file, stored, ?_⟩
  rw [same]
  simp only [List.append_assoc]

theorem appendRecord_guards (law : P.Lawful) (fates : RecordFates) (key : CipherKey)
    (shardID : Nat) (ctr : UInt64) (r : Record) (bytes : Bytes) :
    Guards (Safe good) (Wrote good mf bytes) (appendRecord P fates key shardID ctr mf r)
      fun _ v => sealedLen r ≤ maxUint32 ∧
        Wrote good mf (bytes ++ LogEntry.bytes P key shardID ⟨ctr, r⟩) v := by
  have appends : appendRecord P fates key shardID ctr mf r =
      if sealedLen r > maxUint32 then Prog.throw (.recordTooLarge (sealedLen r))
      else writeRecord fates mf (sealedLen r) (counterNonce ctr shardID)
        (P.aeadSeal key (counterNonce ctr shardID) r.bytes) := by
    simp [appendRecord, CryptoEngine.sealWithCounter, law.seal_length, sealedLen]
  rw [appends]
  split
  · exact Guards.throw _ fun v draft => draft.safe
  · rename_i room
    refine (writeRecord_guards fates _ _ _ bytes).conseq (fun v start => start) ?_
    intro _ v wrote
    exact ⟨Nat.not_lt.mp room, wrote⟩

theorem migrateRecord_guards (law : P.Lawful) (fates : RecordFates) {pending : CipherKey}
    (atRest : Bool) {f : SealedFile} (sealing : f.key = pending)
    (entry : Sigma fun _ : Bytes => Item) :
    let ran := Storage.migrateRecord P pending atRest none f entry
    Guards (Safe good) (Wrote good mf f.bytes)
      (migrateRecord P fates pending atRest f.shardID f.nonceCtr mf entry) fun _ v =>
        (ran.2 = none ∧ ran.1.key = pending ∧ ran.1.shardID = f.shardID ∧
          ran.1.nonceCtr = f.nonceCtr + 1) ∧ Wrote good mf ran.1.bytes v := by
  simp only [migrateRecord, Storage.migrateRecord]
  rcases (if atRest then (CryptoEngine.chacha pending).decryptInPlace P entry.2.value
    else .ok entry.2.value) with err | value
  · exact Guards.throw _ fun v draft => draft.safe
  · simp only
    apply Guards.mapError
    refine (appendRecord_guards law fates pending f.shardID f.nonceCtr _ f.bytes).conseq
      (fun v start => start) ?_
    intro _ v wrote
    rw [appendRecordEncrypted_room law none f wrote.1]
    refine ⟨⟨rfl, sealing, rfl, rfl⟩, ?_⟩
    rw [← sealing] at wrote
    exact wrote.2

theorem migrateRecords_guards (law : P.Lawful) (fates : Nat → RecordFates) {pending : CipherKey}
    (atRest : Bool) {f : SealedFile} (sealing : f.key = pending)
    (entries : List ((Sigma fun _ : Bytes => Item) × Nat)) :
    let ran := foldUntil (fun f (entry : (Sigma fun _ : Bytes => Item) × Nat) =>
      Storage.migrateRecord P pending atRest none f entry.1) f entries
    Guards (Safe good) (Wrote good mf f.bytes)
      (migrateRecords P fates pending atRest f.shardID mf f.nonceCtr entries)
      fun _ v => ran.2 = none ∧ Wrote good mf ran.1.bytes v := by
  induction entries generalizing f with
  | nil =>
    refine (Guards.pure _ fun v draft => draft.safe).conseq (fun v start => start) ?_
    intro _ v start
    exact ⟨rfl, start.1⟩
  | cons entry rest ih =>
    apply Guards.bind (migrateRecord_guards law (fates entry.2) atRest sealing entry.1)
    intro _
    apply Guards.lift
    rintro ⟨ok, key, id, ctr⟩
    have next := ih key
    rw [id, ctr] at next
    simp only [foldUntil]
    rcases ran : Storage.migrateRecord P pending atRest none f entry.1 with ⟨f', err⟩
    rw [ran] at next ok
    cases ok
    exact next

theorem discard_guards (fates : Fates) :
    Guards (Safe good) (Safe good) (discard fates) fun _ => Safe good := by
  apply Guards.bind (Guards.ignore (guards_remove _ _ (by decide)))
  intro _
  exact Guards.ignore (guards_openFile _ _ _)

theorem abandon_guards (fates : Fates) :
    Guards (Safe good) (Safe good) (abandon fates) fun _ => Safe good := by
  apply Guards.bind (Guards.ignore (guards_close _ _ fun _ safe => safe))
  intro _
  exact discard_guards fates

theorem writeNonceSidecar_guards (fates : SidecarFates) (ctr : UInt64) :
    Guards (Safe good) (Safe good) (writeNonceSidecar fates ctr) fun _ => Safe good := by
  have tmp : ShardFile.nonceTmp ≠ .wal := by decide
  have drop : Guards (Safe good) (Safe good)
      (ignore (remove fates.remove Failure.sidecar ShardFile.nonceTmp)) fun _ => Safe good :=
    Guards.ignore (guards_remove _ _ tmp)
  have giveUp : Guards (Safe good) (Safe good) (do
      ignore (close fates.abandon Failure.sidecar)
      ignore (remove fates.remove Failure.sidecar ShardFile.nonceTmp)) fun _ => Safe good :=
    Guards.bind (Guards.ignore (guards_close _ _ fun _ safe => safe)) fun _ => drop
  apply Guards.bind (guards_create _ _ tmp)
  intro f
  apply Guards.bind (Guards.onError (guards_write _ _ tmp _) giveUp)
  intro _
  apply Guards.bind (Guards.onError (guards_sync _ _ tmp) giveUp)
  intro _
  apply Guards.bind (Guards.onError (guards_close _ _ fun _ draft => draft.safe) drop)
  intro _
  have renamed : Guards (Safe good) (Safe good)
      (rename fates.rename Failure.sidecar ShardFile.nonceTmp ShardFile.nonce) fun _ => Safe good :=
    guards_rename _ _ tmp (by decide)
  apply Guards.bind (Guards.onError (renamed.conseq (fun _ draft => draft.safe) fun _ _ safe => safe)
    drop)
  intro _
  exact guards_syncDir _ _

theorem migrate_guards (law : P.Lawful) (fates : Fates) (pending : CipherKey) (atRest : Bool)
    (s : Storage) (entries : List (Sigma fun _ : Bytes => Item))
    (complete : ∀ f, Storage.migrateRecords P pending atRest (fun _ => none)
      (s.migrationFile pending) entries = (f, none) → good f.bytes) :
    Guards (Safe good) (Safe good) (migrate P fates pending atRest s.shardID entries)
      fun _ => Safe good := by
  have differ : ShardFile.migrating ≠ .wal := by decide
  apply Guards.bind (guards_close _ _ fun _ safe => safe)
  intro _
  apply Guards.bind (Guards.onError (guards_create _ _ differ)
    (Guards.bind (guards_openFile _ _ _) fun _ => Guards.pure () fun _ safe => safe))
  intro mf
  apply Guards.bind (Guards.onError (guards_write _ _ differ _) (abandon_guards fates))
  intro _
  have records := @migrateRecords_guards P good mf law fates.records pending atRest
    (s.migrationFile pending) rfl entries.zipIdx
  apply Guards.bind (Guards.onError (Guards.mapError .record records) (abandon_guards fates))
  intro ctr
  apply Guards.lift
  intro ended
  apply Guards.bind (Guards.onError (guards_sync _ _ differ) (abandon_guards fates))
  intro _
  apply Guards.bind (Guards.onError (guards_close _ _ fun _ draft => draft.safe)
    (discard_guards fates))
  intro _
  apply Guards.bind (Guards.onError (guards_publish _ _ differ ?_) (discard_guards fates))
  · intro _
    apply Guards.bind (Guards.ignore (guards_syncDir _ _))
    intro _
    apply Guards.bind (guards_openFile _ _ _)
    intro _
    exact Guards.ignore (writeNonceSidecar_guards fates.sidecar ctr)
  · intro file is
    rw [is.1]
    exact ⟨is.2, complete _ (Prod.ext rfl ended)⟩

end

end Migration

section
variable {P : Primitives} {key : CipherKey} {now : Time} {e : Engine}

theorem migrated_record {entry : Sigma fun _ : Bytes => Item} {r : Record}
    (ok : Storage.migrated P key true entry = .ok r) :
    (CryptoEngine.chacha key).plain P entry.2.value =
        some (((CryptoEngine.chacha key).plain P entry.2.value).getD []) ∧
      (rewritten P key entry).record = r := by
  simp only [Storage.migrated, ↓reduceIte] at ok
  rcases opened : (CryptoEngine.chacha key).decryptInPlace P entry.2.value with err | value
  · rw [opened] at ok
    cases ok
  · rw [opened] at ok
    cases ok
    simp [rewritten, CryptoEngine.plain, opened, Except.toOption, LogCall.record]

theorem Engine.contents_live (cipher : e.crypto = .chacha key) (order : MapOrder)
    (readable : ∀ entry ∈ e.forEach now order, (CryptoEngine.chacha key).plain P entry.2.value =
      some (((CryptoEngine.chacha key).plain P entry.2.value).getD [])) (k : Bytes) :
    Update.replayAll now (fun _ => none)
        (((e.forEach now order).map (rewritten P key)).map LogCall.update) k =
      (e.contents P k).filter fun x => Update.survives now x.2 := by
  have perm : (order.visit e.items.entries).Perm e.items.entries := order.perm _
  have live : (e.forEach now order).Sublist (order.visit e.items.entries) :=
    List.filter_sublist
  have distinct : ((((e.forEach now order).map (rewritten P key)).map LogCall.update).map
      Update.key).Nodup := by
    rw [rewritten_keys]
    exact (live.map Sigma.fst).nodup ((List.perm_nodupKeys perm).mpr e.items.nodupKeys)
  rw [Update.replayAll_of_nodup distinct]
  cases found : e.items.lookup k with
  | none =>
    have nothing : e.contents P k = none := by simp [contents, decode, raw, found]
    have stored := List.Subset.trans live.subset perm.subset
    rw [nothing, Update.applyAll_of_others (rewritten_others stored found)]
  | some item =>
    have shown : e.contents P k =
        ((CryptoEngine.chacha key).plain P item.value).map fun v => (v, item.expiration) := by
      simp [contents, decode, raw, found, cipher]
    by_cases alive : Update.survives now item.expiration = true
    · have entry : ⟨k, item⟩ ∈ e.forEach now order := by
        rw [forEach, List.mem_filter]
        refine ⟨perm.symm.subset (AList.mem_lookup_iff.mp found), ?_⟩
        cases exp : item.expiration with
        | none => rfl
        | some t =>
          rw [exp] at alive
          simp only [Update.survives, decide_eq_true_eq] at alive
          simpa [expired] using Nat.le_of_lt alive
      have written : LogCall.update (rewritten P key ⟨k, item⟩) ∈
          ((e.forEach now order).map (rewritten P key)).map LogCall.update :=
        List.mem_map_of_mem (List.mem_map_of_mem entry)
      rw [Update.applyAll_of_mem distinct written, shown, readable _ entry]
      rfl
    · have left : ∀ x, Update.applyAll (fun _ => none)
          (((e.forEach now order).map (rewritten P key)).map LogCall.update) k = some x →
          ¬ Update.survives now x.2 = true := by
        intro x stored
        obtain ⟨c, here, same⟩ := List.mem_map.mp (Update.mem_of_applyAll stored)
        obtain ⟨entry, mem, rfl⟩ := List.mem_map.mp here
        simp only [rewritten, LogCall.update, Update.set.injEq] at same
        obtain ⟨rfl, -, expires⟩ := same
        have known : e.items.lookup entry.1 = some entry.2 :=
          AList.mem_lookup_iff.mpr (perm.subset (live.subset mem))
        rw [found] at known
        cases known
        rw [← expires]
        exact alive
      have right : ∀ x, e.contents P k = some x → ¬ Update.survives now x.2 = true := by
        intro x stored
        rw [shown] at stored
        obtain ⟨v, -, rfl⟩ := Option.map_eq_some_iff.mp stored
        exact alive
      rw [Option.filter_eq_none_iff.mpr left, Option.filter_eq_none_iff.mpr right]

theorem records_of_migrated {entries : List (Sigma fun _ : Bytes => Item)} {added : List LogEntry}
    (values : entries.map (Storage.migrated P key true) = added.map fun r => .ok r.record) :
    added.map (·.record) = (entries.map (rewritten P key)).map LogCall.record ∧
      ∀ entry ∈ entries, (CryptoEngine.chacha key).plain P entry.2.value =
        some (((CryptoEngine.chacha key).plain P entry.2.value).getD []) := by
  induction entries generalizing added with
  | nil =>
    obtain rfl : added = [] := by simpa using values.symm
    exact ⟨rfl, by simp⟩
  | cons entry entries ih =>
    cases added with
    | nil => simp at values
    | cons r added =>
      simp only [List.map_cons, List.cons.injEq] at values
      obtain ⟨plain, record⟩ := migrated_record values.1
      obtain ⟨records, readable⟩ := ih values.2
      exact ⟨by simp [records, record], List.forall_mem_cons.mpr ⟨plain, readable⟩⟩

/-- A start with the key finds a complete encrypted log and restores the map, whatever became of
the other files. -/
def Restarts (P : Primitives) (key : CipherKey) (now : Time) (shardID : Nat) (file : Bytes)
    (map : ExpiringMap Bytes Bytes) : Prop :=
  ∀ (files : Storage) (interval : Duration) (slots draws : Nat) (order : MapOrder)
      (faults : Nat → Fault),
    files.enabled = true → files.shardID = shardID → files.disk.wal = some file →
    files.disk.snap = none →
    let opened := files.openShard (.chacha key)
    let loaded := opened.1.loadShard P now order faults
      (Engine.new interval slots 0 (.chacha key) draws)
    opened.2 = none ∧ opened.1.handle = some ⟨.encrypted key, 0⟩ ∧ loaded.err = none ∧
      loaded.storage.wal = file ∧ loaded.engine.contents P = map

theorem Engine.Restored.restarts (law : P.Lawful) (restored : e.Restored key) (order : MapOrder)
    (s : Storage) {f : SealedFile}
    (ran : Storage.migrateRecords P key true (fun _ => none) (s.migrationFile key)
      (e.forEach now order) = (f, none)) :
    Restarts P key now s.shardID f.bytes fun k =>
      (e.contents P k).filter fun x => Update.survives now x.2 := by
  obtain ⟨added, bytes, fits, values⟩ :=
    Storage.migrateRecords_complete law (fun _ => none) ran
  obtain ⟨records, readable⟩ := records_of_migrated values
  have calls : ∀ c ∈ (e.forEach now order).map (rewritten P key),
      c.record.Fits ∧ c.dated = true := by
    intro c mem
    constructor
    · have logged : c.record ∈ added.map (·.record) := by
        rw [records]
        exact List.mem_map_of_mem mem
      obtain ⟨r, here, same⟩ := List.mem_map.mp logged
      rw [← same]
      exact (fits r here).record
    · obtain ⟨entry, here, rfl⟩ := List.mem_map.mp mem
      have stored : entry ∈ e.items.entries :=
        (order.perm _).subset (List.mem_of_mem_filter here)
      cases exp : entry.2.expiration with
      | none => simp [rewritten, exp, LogCall.dated]
      | some t => simpa [rewritten, exp, LogCall.dated] using restored.dated entry stored t exp
  intro files interval slots draws order' faults enabled id wal missing
  have log : f.bytes = (CryptoEngine.chacha key).walMode.magic ++
      added.flatMap (LogEntry.bytes P key files.shardID) := by
    rw [bytes, id]
    rfl
  have file := wal.trans (congrArg some log)
  have opens : files.openShard (.chacha key) = (files.opened (.chacha key), none) :=
    Storage.openShard_openable enabled file rfl
  have on : (files.opened (.chacha key)).enabled = true := enabled
  have absent : (files.opened (.chacha key)).disk.snap = none := missing
  have logs : (files.opened (.chacha key)).Logs P ⟨.encrypted key, 0⟩ added [] :=
    ⟨rfl, by rw [List.append_nil]; exact file, fits⟩
  have loaded := Storage.loadShard_log law on logs (Or.inl rfl) rfl now order' faults
    (Shard.loadSnapshot_missing P now absent (Engine.new interval slots 0 (.chacha key) draws))
  have unbounded := replayRecords_unbounded P now
    (show (Engine.new interval slots 0 (.chacha key) draws).maxBytes = 0 from rfl)
    (added.map (·.record))
  rw [unbounded] at loaded
  rw [records] at unbounded
  have contents := replayRecords_contents law (fun c mem => (calls c mem).1)
    (fun c mem => (calls c mem).2) unbounded
  simp only [opens, loaded]
  refine ⟨trivial, rfl, trivial, ?_, ?_⟩
  · exact log.symm
  · rw [← records] at contents
    funext k
    rw [contents]
    exact Engine.contents_live restored.cipher order readable k

end

theorem Disk.volume_safe {d : Disk} {wal : Bytes} {good : Bytes → Prop} (file : d.wal = some wal)
    (fine : good wal) : d.volume.Safe .wal good := by
  constructor
  · intro target mem
    refine ⟨0, ⟨wal, true⟩, ?_, ?_, rfl, fine⟩
    · simpa [volume, Durability.Volume.stands, file] using mem
    · simp [volume, file]
  · intro other i differ here mem
    cases mem

theorem Engine.Restored.crash_atomic {P : Primitives} (law : P.Lawful) {key : CipherKey}
    {e : Engine} (restored : e.Restored key) {store : Storage}
    (stored : store.disk.wal = some store.wal) (now : Time) (order : MapOrder)
    (fates : Migration.Fates) {found : Option Bytes}
    (finds : (Migration.migrate P fates key e.crypto.enabled store.shardID (e.forEach now order)
      store.disk.volume).2.Finds .wal found) :
    found = some store.wal ∨
      ∃ migrated, store.migrate P now order (fun _ => none) key e = (migrated, none) ∧
        found = some migrated.wal ∧
        Restarts P key now store.shardID migrated.wal fun k =>
          (e.contents P k).filter fun x => Update.survives now x.2 := by
  let ran := Storage.migrateRecords P key e.crypto.enabled (fun _ => none)
    (store.migrationFile key) (e.forEach now order)
  let good (bytes : Bytes) : Prop := bytes = store.wal ∨ ran.2 = none ∧ bytes = ran.1.bytes
  have guards := @Migration.migrate_guards P good law fates key e.crypto.enabled store
    (e.forEach now order) (fun f whole =>
      Or.inr ⟨congrArg Prod.snd whole, congrArg (fun x => x.1.bytes) whole.symm⟩)
  have safe := (guards _ (Disk.volume_safe stored (Or.inl rfl))).1
  obtain ⟨bytes, rfl, old | ⟨whole, rfl⟩⟩ := safe.found finds
  · exact Or.inl (congrArg some old)
  · right
    have sealing : e.crypto.enabled = true := by
      rw [restored.cipher]
      rfl
    have complete : Storage.migrateRecords P key true (fun _ => none) (store.migrationFile key)
        (e.forEach now order) = (ran.1, none) := by
      rw [← sealing]
      exact Prod.ext rfl whole
    refine ⟨{ store with
      disk := writeNonceSidecar { store.disk with wal := some ran.1.bytes, migrating := none }
        ran.1.nonceCtr
      handle := some ⟨.encrypted key, ran.1.nonceCtr⟩
      sealed := ran.1.sealed }, ?_, rfl, restored.restarts law order store complete⟩
    simp only [Storage.migrate, sealing, complete]

/-- Wherever the migration crashes, and whatever was not synced by then, the log is the one the
replay left or a complete encrypted one. -/
theorem migration_crash_atomic {P : Primitives} (law : P.Lawful) {s : Storage} {wal : Bytes}
    (enabled : s.enabled = true) (file : s.disk.wal = some wal) (missing : s.disk.snap = none)
    (long : walMagicLen ≤ wal.length) (plaintext : wal.take walMagicLen ≠ walMagic)
    (key : CipherKey) (interval : Duration) (slots draws : Nat) (started now : Time)
    (order : MapOrder) (fates : Migration.Fates) :
    let fresh := Engine.new interval slots 0 (.chacha key) draws
    let opened := s.openShard (.chacha key)
    let replayed := opened.1.replayWAL P started fresh
    let store := replayed.storage
    let e := replayed.engine
    let ended := Migration.migrate P fates key e.crypto.enabled store.shardID (e.forEach now order)
      store.disk.volume
    opened.2 = none ∧ opened.1.handle = some ⟨.migrating key, 0⟩ ∧
      opened.1.loadSnapshot P started fresh = (fresh, none) ∧ replayed.err = none ∧
      ∀ found, ended.2.Finds .wal found →
        found = some store.wal ∨
          ∃ migrated, store.migrate P now order (fun _ => none) key e = (migrated, none) ∧
            found = some migrated.wal ∧
            Restarts P key now store.shardID migrated.wal fun k =>
              (e.contents P k).filter fun x => Update.survives now x.2 := by
  have opens := Storage.openShard_plaintext enabled file long plaintext key
  simp only [opens]
  obtain ⟨ok, restored, left, same⟩ := @Storage.replayWAL_restored P
    { s with handle := some ⟨.migrating key, 0⟩ } key 0 started _ rfl wal file
    (Engine.restored_new interval slots key draws)
  refine ⟨trivial, trivial, ?_, ok, ?_⟩
  · apply Shard.loadSnapshot_missing
    exact missing
  intro found finds
  exact restored.crash_atomic law (by rw [same]; rfl) now order fates finds

/-- A device that does everything it is told until the rename, where the process dies. -/
def Migration.Fates.diesRenaming : Migration.Fates where
  closePlaintext := .done
  create := .done
  magic := .done
  records _ := ⟨.done, .done, .done, .done⟩
  sync := .done
  close := .done
  rename := .dies 1
  syncDir := .done
  reopen := .done
  abandon := .done
  remove := .done
  sidecar := ⟨.done, .done, .done, .done, .done, .done, .done, .done⟩

/-- One key in a plaintext log that ends in a torn record, and the rest of an earlier attempt. -/
def Storage.samplePlain : Storage :=
  ⟨true, 7, ⟨some ((Record.set [107] [118] none).bytes ++ [1, 0, 0]), none, none, some [9]⟩, none, []⟩

theorem migration_crash_atomic_renaming :
    let opened := Storage.samplePlain.openShard (.chacha .ones)
    let replayed := opened.1.replayWAL .tagged 5 (Engine.new 1 8 0 (.chacha .ones) 0)
    let store := replayed.storage
    let e := replayed.engine
    let ended := Migration.migrate .tagged .diesRenaming .ones e.crypto.enabled store.shardID
      (e.forEach 5 .asStored) store.disk.volume
    ended.1 = .died ∧ (ended.2.names .wal, ended.2.past .wal) = (some 1, [some 0]) ∧
      ∀ found, ended.2.Finds .wal found →
        found = some store.wal ∨
          ∃ migrated, store.migrate .tagged 5 .asStored (fun _ => none) .ones e =
              (migrated, none) ∧
            found = some migrated.wal ∧
            Restarts .tagged .ones 5 store.shardID migrated.wal fun k =>
              (e.contents .tagged k).filter fun x => Update.survives 5 x.2 := by
  have spec := migration_crash_atomic Primitives.tagged_lawful
    (show Storage.samplePlain.enabled = true from rfl) rfl rfl (by decide) (by decide) .ones 1 8 0
    5 5 .asStored .diesRenaming
  exact ⟨by decide +kernel, by decide +kernel, spec.2.2.2.2⟩

end Tellstone
