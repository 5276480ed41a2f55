import Tellstone.Persistence.Lifecycle
import Tellstone.Persistence.Updates
import Tellstone.Storage.Accounting

/-! A shard: its engine and its part of the storage, the operations on both, and
the start of a shard from its files. -/
namespace Tellstone
open ByteStream ExpiringMap

/-- The commands of the wire protocol. A shard executes the first three. -/
inductive Op where
  | get
  | set
  | del
  | ping
  | command
  | auth
  | role
  | acl
  deriving DecidableEq, Repr

structure Response where
  value : Option Bytes
  ok : Bool
  err : Option Error
  deriving DecidableEq, Repr

/-- The settings a shard is started with. Parsing replaces a shard count below one. -/
structure Config where
  evictTicker : Duration
  evictSlots : Nat
  maxMemBytes : Nat
  numShards : Nat
  sharded : 0 < numShards

def Config.plain : Config := ⟨0, 0, 0, 1, Nat.one_pos⟩

def Config.tiny : Config := ⟨0, 0, 10, 1, Nat.one_pos⟩

structure Shard where
  engine : Engine
  persistence : Storage

/-- One call of Execute, its clock reading, and the device faults of its append and of the one
that takes it back. -/
structure Request where
  now : Time
  op : Op
  key : Bytes
  value : Bytes
  ttl : Duration
  fault : Fault
  undoFault : Fault

def Request.healthy (now : Time) (op : Op) (key value : Bytes) (ttl : Duration) : Request :=
  ⟨now, op, key, value, ttl, none, none⟩

namespace Shard

def maxBytes (cfg : Config) : Nat :=
  if 0 < cfg.maxMemBytes then cfg.maxMemBytes / cfg.numShards else cfg.maxMemBytes

def newEngine (cfg : Config) (crypto : CryptoEngine) (draws : Nat) : Engine :=
  Engine.new cfg.evictTicker cfg.evictSlots (maxBytes cfg) crypto draws

/-- Starts a shard on the files of `store`. When it fails the caller gets no shard. -/
def run (P : Primitives) (now : Time) (order : MapOrder) (cfg : Config) (crypto : CryptoEngine)
    (draws : Nat) (store : Storage) : Shard × Option Error :=
  let engine := newEngine cfg crypto draws
  if store.enabled then
    match store.openShard crypto with
    | (store, some err) => (⟨engine, store⟩, some (.openPersistence store.shardID err))
    | (store, none) =>
      let l := store.loadShard P now order (fun _ => none) engine
      (⟨l.engine, l.storage⟩, l.err.map (.loadPersistence store.shardID))
  else (⟨engine, store⟩, none)

def execute (P : Primitives) (s : Shard) (c : Request) : Shard × Response :=
  match c.op with
  | .get =>
    let (engine, val) := s.engine.get P c.now c.key
    (⟨engine, s.persistence⟩, ⟨val, val.isSome, none⟩)
  | .set =>
    let expiration := expiry c.now c.ttl
    let (engine, existing) := s.engine.get P c.now c.key
    let keyExisted := existing.isSome
    match if s.persistence.enabled then
        s.persistence.write P c.fault c.key c.value expiration
      else (s.persistence, none) with
    | (store, some err) => (⟨engine, store⟩, ⟨none, false, some err⟩)
    | (store, none) =>
      match engine.set P c.now c.key c.value c.ttl with
      | (engine, some err) =>
        let store :=
          if store.enabled && !keyExisted then (store.delete P c.undoFault c.key).1 else store
        (⟨engine, store⟩, ⟨none, false, some err⟩)
      | (engine, none) => (⟨engine, store⟩, ⟨none, true, none⟩)
  | .del =>
    match if s.persistence.enabled then s.persistence.delete P c.fault c.key
      else (s.persistence, none) with
    | (store, some err) => (⟨s.engine, store⟩, ⟨none, false, some err⟩)
    | (store, none) =>
      let (engine, found) := s.engine.delete c.now c.key
      (⟨engine, store⟩, ⟨none, found, none⟩)
  | _ => (s, ⟨none, false, some .shardStopped⟩)

def executeAll (P : Primitives) : Shard → List Request → Shard × List Response
  | s, [] => (s, [])
  | s, c :: requests =>
    let (s, response) := s.execute P c
    let (s, responses) := executeAll P s requests
    (s, response :: responses)

end Shard

def Request.logged (c : Request) : List LogCall :=
  match c.op with
  | .set => [.write c.key c.value (expiry c.now c.ttl)]
  | .del => [.delete c.key]
  | _ => []

def Request.plainWrite (c : Request) : Bool :=
  (decide (c.op = .set) || decide (c.op = .del)) && decide (c.ttl ≤ 0)

theorem Request.plainWrite_logged {c : Request} (write : c.plainWrite = true) :
    ∃ l, c.logged = [l] ∧ l.update.key = c.key ∧ ∀ k v exp, l = .write k v exp → exp = none := by
  simp only [plainWrite, Bool.and_eq_true, Bool.or_eq_true, decide_eq_true_eq] at write
  have forever : expiry c.now c.ttl = none := if_neg (Int.not_lt.mpr write.2)
  rcases write.1 with op | op
  · refine ⟨.write c.key c.value none, by simp [logged, op, forever], rfl, ?_⟩
    rintro k v exp ⟨⟩
    rfl
  · exact ⟨.delete c.key, by simp [logged, op], rfl, by simp⟩

namespace Shard

/-- The ways a call of an enabled shard succeeds. -/
inductive Executed (P : Primitives) (s : Shard) (c : Request) : Shard → Prop where
  | get (op : c.op = .get) : Executed P s c ⟨(s.engine.get P c.now c.key).1, s.persistence⟩
  | set {store : Storage} {engine : Engine} (op : c.op = .set)
      (logged : s.persistence.log P c.fault (.write c.key c.value (expiry c.now c.ttl)) =
        (store, none))
      (stored : (s.engine.get P c.now c.key).1.set P c.now c.key c.value c.ttl = (engine, none)) :
      Executed P s c ⟨engine, store⟩
  | del {store : Storage} (op : c.op = .del)
      (logged : s.persistence.log P c.fault (.delete c.key) = (store, none)) :
      Executed P s c ⟨(s.engine.delete c.now c.key).1, store⟩

section
variable {P : Primitives} {s : Shard} {c : Request}

theorem execute_ok (enabled : s.persistence.enabled = true)
    (ok : (s.execute P c).2.err = none) : s.Executed P c (s.execute P c).1 := by
  unfold execute at ok ⊢
  cases op : c.op with
  | get => exact .get op
  | set =>
    simp only [op, enabled, ↓reduceIte] at ok ⊢
    rcases logged : s.persistence.write P c.fault c.key c.value (expiry c.now c.ttl) with
      ⟨store, _ | err⟩
    · simp only [logged] at ok ⊢
      rcases stored : (s.engine.get P c.now c.key).1.set P c.now c.key c.value c.ttl with
        ⟨engine, _ | err⟩
      · exact .set op logged stored
      · simp only [stored] at ok
        cases ok
    · simp only [logged] at ok
      cases ok
  | del =>
    simp only [op, enabled, ↓reduceIte] at ok ⊢
    rcases logged : s.persistence.delete P c.fault c.key with ⟨store, _ | err⟩
    · exact .del op logged
    · simp only [logged] at ok
      cases ok
  | _ =>
    simp only [op] at ok
    cases ok

theorem execute_set_expiration (op : c.op = .set)
    (ok : (s.execute P c).2.err = none) :
    ((s.execute P c).1.engine.items.lookup c.key).map Item.expiration =
      some (expiry c.now c.ttl) := by
  unfold execute at ok ⊢
  simp only [op] at ok ⊢
  rcases logged : (if s.persistence.enabled then
      s.persistence.write P c.fault c.key c.value (expiry c.now c.ttl)
    else (s.persistence, none)) with ⟨store, _ | err⟩
  · simp only [logged] at ok ⊢
    rcases stored : (s.engine.get P c.now c.key).1.set P c.now c.key c.value c.ttl with
      ⟨engine, _ | err⟩
    · have room := Engine.set_ok_iff.mp (congrArg Prod.snd stored)
      have items : engine.items = _ := (congrArg (fun x => x.1.items) stored.symm).trans
        (Engine.set_items room)
      simp only [items, AList.lookup_insert, Option.map_some]
    · simp only [stored] at ok
      cases ok
  · simp only [logged] at ok
    cases ok

theorem execute_store (enabled : s.persistence.enabled = true) (c : Request) :
    (s.execute P c).1.persistence = s.persistence ∨
      ∃ l, c.logged = [l] ∧
        ((s.execute P c).1.persistence = (s.persistence.log P c.fault l).1 ∨
          (s.persistence.log P c.fault l).2 = none ∧
          (s.execute P c).1.persistence =
            ((s.persistence.log P c.fault l).1.log P c.undoFault (.delete c.key)).1) := by
  unfold execute
  cases op : c.op with
  | get => exact Or.inl rfl
  | set =>
    refine Or.inr ⟨LogCall.write c.key c.value (expiry c.now c.ttl),
      by simp only [Request.logged, op], ?_⟩
    simp only [enabled, ↓reduceIte, Storage.log]
    rcases s.persistence.write P c.fault c.key c.value (expiry c.now c.ttl) with ⟨store, _ | err⟩
    · simp only
      rcases (s.engine.get P c.now c.key).1.set P c.now c.key c.value c.ttl with ⟨engine, _ | err⟩
      · exact Or.inl rfl
      · simp only
        split
        · exact Or.inr ⟨trivial, rfl⟩
        · exact Or.inl rfl
    · exact Or.inl rfl
  | del =>
    refine Or.inr ⟨.delete c.key, by simp only [Request.logged, op], Or.inl ?_⟩
    simp only [enabled, ↓reduceIte, Storage.log]
    rcases s.persistence.delete P c.fault c.key with ⟨store, _ | err⟩
    · rfl
    · rfl
  | _ => exact Or.inl rfl

theorem execute_open {mode : WalMode} {entries : List LogEntry} {tail : Bytes} (law : P.Lawful)
    (opened : s.persistence.Open P mode entries tail) (c : Request) :
    ∃ written, (s.execute P c).1.persistence.Open P mode entries (tail ++ written) ∧
      (s.execute P c).1.persistence.shardID = s.persistence.shardID := by
  rcases execute_store opened.enabled c with same | ⟨l, -, same | ⟨-, same⟩⟩
  · rw [same]
    exact ⟨[], by simpa using opened, rfl⟩
  · rw [same]
    obtain ⟨-, written, next, id, -⟩ := opened.log law c.fault l
    exact ⟨written, next, id⟩
  · rw [same]
    obtain ⟨-, written, next, id, -⟩ := opened.log law c.fault l
    obtain ⟨-, undone, last, id', -⟩ := next.log law c.undoFault (.delete c.key)
    exact ⟨written ++ undone, by simpa using last, id'.trans id⟩

theorem executeAll_open {mode : WalMode} {entries : List LogEntry} {tail : Bytes} (law : P.Lawful)
    (opened : s.persistence.Open P mode entries tail) (requests : List Request) :
    ∃ written, (s.executeAll P requests).1.persistence.Open P mode entries (tail ++ written) ∧
      (s.executeAll P requests).1.persistence.shardID = s.persistence.shardID := by
  induction requests generalizing s tail with
  | nil => exact ⟨[], by simpa [executeAll] using opened, rfl⟩
  | cons c requests ih =>
    obtain ⟨written, next, id⟩ := execute_open law opened c
    obtain ⟨more, final, id'⟩ := ih next
    exact ⟨written ++ more, by simpa [executeAll] using final, id'.trans id⟩

theorem executeAll_wal {mode : WalMode} {entries : List LogEntry} {tail : Bytes} (law : P.Lawful)
    (opened : s.persistence.Open P mode entries tail) (requests : List Request) :
    ∃ written, (s.executeAll P requests).1.persistence.wal = s.persistence.wal ++ written := by
  obtain ⟨written, grown, id⟩ := executeAll_open law opened requests
  exact ⟨written, by simp only [grown.wal_eq, opened.wal_eq, id, List.append_assoc]⟩

theorem Executed.contents {s' : Shard} (law : P.Lawful) (done : s.Executed P c s') :
    SameFrom c.now (s'.engine.contents P)
      (Update.applyAll (s.engine.contents P) (c.logged.map LogCall.update)) := by
  cases done with
  | get op =>
    simp only [Request.logged, op]
    exact Engine.contents_get P c.now s.engine c.key
  | set op logged stored =>
    simp only [Request.logged, op, Engine.contents_set_ok law stored]
    exact (Engine.contents_get P c.now s.engine c.key).put c.key c.value _
  | del op logged =>
    simp only [Request.logged, op, Engine.contents_delete]
    exact SameFrom.refl _ _

theorem Executed.log {s' : Shard} {mode : WalMode} {cs : List LogCall} (law : P.Lawful)
    (done : s.Executed P c s') (log : s.persistence.LogOf P mode cs) :
    s'.persistence.LogOf P mode (cs ++ c.logged) ∧
      s'.persistence.disk.snap = s.persistence.disk.snap := by
  have appended {store : Storage} {l : LogCall} (logs : c.logged = [l])
      (ok : s.persistence.log P c.fault l = (store, none)) :
      store.LogOf P mode (cs ++ c.logged) ∧ store.disk.snap = s.persistence.disk.snap := by
    obtain ⟨wal, disk, -, -⟩ := s.persistence.log_frame P c.fault l
    rw [ok] at disk
    constructor
    · rw [logs]
      exact log.log law ok
    · rw [disk]
  cases done with
  | get op => exact ⟨by simpa [Request.logged, op] using log, rfl⟩
  | set op logged stored => exact appended (by simp [Request.logged, op]) logged
  | del op logged => exact appended (by simp [Request.logged, op]) logged

end

end Shard

/-- Files with a log in the format of `crypto`: whole records, and a cut one
behind them. -/
structure Storage.Stores (P : Primitives) (s : Storage) (crypto : CryptoEngine)
    (entries : List LogEntry) (tail : Bytes) : Prop where
  enabled : s.enabled = true
  wal : s.disk.wal = some (crypto.walMode.magic ++
    entries.flatMap (crypto.walMode.frame P s.shardID) ++ tail)
  fits : ∀ r ∈ entries, crypto.walMode.Fits r
  cut : Framing.Cut (crypto.walMode.frame P s.shardID) crypto.walMode.Fits tail

namespace Storage

section
variable {P : Primitives} {s : Storage} {crypto : CryptoEngine} {entries : List LogEntry}
  {tail : Bytes}

theorem Open.stores (opened : s.Open P crypto.walMode entries tail)
    (cut : Framing.Cut (crypto.walMode.frame P s.shardID) crypto.walMode.Fits tail) :
    s.crash.Stores P crypto entries tail := by
  obtain ⟨enabled, -, h, mode, logs⟩ := opened
  rw [← mode] at cut
  constructor
  · exact enabled
  · rw [← mode]
    exact logs.wal
  · rw [← mode]
    exact logs.fits
  · rw [← mode]
    exact cut

theorem Stores.opened (stores : s.Stores P crypto entries tail) :
    (s.opened crypto).Logs P ⟨crypto.walMode, 0⟩ entries tail :=
  ⟨rfl, stores.wal, stores.fits⟩

theorem Stores.openable (stores : s.Stores P crypto entries [])
    (clear : crypto.enabled = true ∨ magicClash (entries.map (·.record)) = false) :
    s.openable crypto = true := by
  have wal := stores.wal
  rw [List.append_nil] at wal
  rw [openable_records wal stores.fits]
  rcases clear with on | none
  · simp [on]
  · simp [none]

end

end Storage

namespace Shard

section
variable {P : Primitives} {crypto : CryptoEngine} {store : Storage} {entries : List LogEntry}
  {tail : Bytes}

theorem run_opened (law : P.Lawful) {files : Storage} (enabled : files.enabled = true)
    (opens : files.openShard crypto = (store.opened crypto, none))
    (stores : store.Stores P crypto entries tail) (now : Time) (order : MapOrder) (cfg : Config)
    (draws : Nat) {e : Engine}
    (snap : (store.opened crypto).loadSnapshot P now (newEngine cfg crypto draws) = (e, none)) :
    run P now order cfg crypto draws files =
      match replayRecords P now e (entries.map (·.record)) with
      | (e', none) =>
        (⟨e', (store.opened crypto).recovered P ⟨crypto.walMode, 0⟩ entries⟩, none)
      | (e', some err) =>
        (⟨e', store.opened crypto⟩, some (.loadPersistence store.shardID err)) := by
  have on : (store.opened crypto).enabled = true := stores.enabled
  have load := Storage.loadShard_log law on stores.opened stores.cut crypto.walMode_writable now
    order (fun _ => none) snap
  simp only [run, if_pos enabled, opens, load]
  rcases replayed : replayRecords P now e (entries.map (·.record)) with ⟨e', _ | err⟩
  · simp only [replayed, Option.map_none]
  · simp only [replayed, Option.map_some]
    rfl

theorem fresh_stores (P : Primitives) (shardID : Nat) (crypto : CryptoEngine) :
    ((Storage.fresh shardID).setWal crypto.walMode.magic).Stores P crypto [] [] := by
  constructor
  · rfl
  · simp [Storage.setWal]
  · simp
  · exact Or.inl rfl

theorem openShard_fresh (shardID : Nat) (crypto : CryptoEngine) :
    (Storage.fresh shardID).openShard crypto =
      (((Storage.fresh shardID).setWal crypto.walMode.magic).opened crypto, none) := by
  cases crypto <;> rfl

theorem recovered_open (stores : store.Stores P crypto entries tail) :
    ((store.opened crypto).recovered P ⟨crypto.walMode, 0⟩ entries).Open P crypto.walMode
      entries [] := by
  obtain ⟨h, mode, recovered⟩ := Storage.recovered_logs stores.opened
  refine ⟨?_, by simp, h, mode, recovered⟩
  exact (Storage.resumed_enabled _ _ _).trans stores.enabled

theorem recovered_snap (store : Storage) (crypto : CryptoEngine) (entries : List LogEntry) :
    ((store.opened crypto).recovered P ⟨crypto.walMode, 0⟩ entries).disk.snap =
      store.disk.snap := by
  cases crypto <;> rfl

theorem loadSnapshot_missing (P : Primitives) (now : Time) {s : Storage}
    (missing : s.disk.snap = none) (e : Engine) : s.loadSnapshot P now e = (e, none) := by
  have absent : snapshotExists s.disk.snap = false := by
    rw [missing]
    rfl
  simp [Storage.loadSnapshot, absent]

def loads (P : Primitives) (now : Time) (store : Storage) (e : Engine) (rs : List Record) :
    Engine × Option Error :=
  match store.loadSnapshot P now e with
  | (e, none) => replayRecords P now e rs
  | (e, some err) => (e, some err)

theorem run_stores (law : P.Lawful) (stores : store.Stores P crypto entries tail) (now : Time)
    (order : MapOrder) (cfg : Config) (draws : Nat) :
    if store.openable crypto then
      let l := loads P now (store.opened crypto) (newEngine cfg crypto draws)
        (entries.map (·.record))
      ∃ s, run P now order cfg crypto draws store =
          (⟨l.1, s⟩, l.2.map (.loadPersistence store.shardID)) ∧
        (l.2 = none → s.Open P crypto.walMode entries [] ∧ s.disk.snap = store.disk.snap)
    else ∃ err, run P now order cfg crypto draws store =
      (⟨newEngine cfg crypto draws, store⟩, some err) := by
  have wal := stores.wal
  rw [List.append_assoc] at wal
  have opens := Storage.openShard_file stores.enabled wal
  split
  · rename_i openable
    rw [if_pos openable] at opens
    simp only [loads]
    rcases snap : (store.opened crypto).loadSnapshot P now (newEngine cfg crypto draws) with
      ⟨e, _ | err⟩
    · have ran := run_opened law stores.enabled opens stores now order cfg draws snap
      simp only
      rcases replayed : replayRecords P now e (entries.map (·.record)) with ⟨e', _ | err⟩
      · simp only [replayed] at ran ⊢
        exact ⟨_, ran, fun _ => ⟨recovered_open stores, recovered_snap store crypto entries⟩⟩
      · simp only [replayed] at ran ⊢
        exact ⟨_, ran, fun no => by cases no⟩
    · have on : (!(store.opened crypto).enabled) = false := by
        rw [show (store.opened crypto).enabled = true from stores.enabled]
        rfl
      refine ⟨store.opened crypto, ?_, fun no => by cases no⟩
      simp only [run, if_pos stores.enabled, opens, Storage.loadShard, on, snap,
        Bool.false_eq_true, ↓reduceIte]
      rfl
  · rename_i closed
    rw [if_neg closed] at opens
    obtain ⟨err, opens⟩ := opens
    refine ⟨.openPersistence store.shardID err, ?_⟩
    simp only [run, if_pos stores.enabled, opens]

theorem run_fresh (law : P.Lawful) (shardID : Nat) (crypto : CryptoEngine) (now : Time)
    (order : MapOrder) (cfg : Config) (draws : Nat) :
    ∃ s, run P now order cfg crypto draws (.fresh shardID) =
        (⟨newEngine cfg crypto draws, s⟩, none) ∧
      s.LogOf P crypto.walMode [] ∧ s.disk.snap = none := by
  have stores := fresh_stores P shardID crypto
  have started := run_opened law rfl (openShard_fresh shardID crypto) stores now order cfg draws
    (loadSnapshot_missing P now rfl _)
  exact ⟨_, started, ⟨[], recovered_open stores, rfl⟩, recovered_snap _ crypto []⟩

end

end Shard

end Tellstone
