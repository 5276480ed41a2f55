import Tellstone.Persistence.Lifecycle

/-! Which of the logs a process can leave behind OpenShard opens again. -/
namespace Tellstone
open ByteStream

/-- What happens to the log of a shard. A crash keeps so many bytes of the file. -/
inductive WalEvent where
  | openShard
  | append (fault : Fault) (call : LogCall)
  | crash (size : Nat)

namespace Storage

def crashed (s : Storage) (size : Nat) : Storage :=
  { s with disk := { s.disk with wal := s.disk.wal.map (List.take size) }, handle := none }

def walStep (P : Primitives) (crypto : CryptoEngine) (s : Storage) : WalEvent → Storage
  | .openShard => (s.openShard crypto).1
  | .append fault call => (s.log P fault call).1
  | .crash size => s.crashed size

def walRun (P : Primitives) (crypto : CryptoEngine) (s : Storage) (events : List WalEvent) :
    Storage :=
  events.foldl (walStep P crypto) s

/-- OpenShard fails on one to three bytes, and without a key on the magic, even where that is a
key length. -/
def Reopenable (s : Storage) (crypto : CryptoEngine) : Prop :=
  s.wal = [] ∨ walMagicLen ≤ s.wal.length ∧
    (crypto = .passThrough → s.wal.take walMagicLen ≠ walMagic)

def OpensAs (s : Storage) (crypto : CryptoEngine) : Prop :=
  (s.openShard crypto).2 = none ∧
    (s.openShard crypto).1.handle.map (·.mode) = some crypto.walMode

/-- A log that only this engine has written: it starts with the magic, or is a part of it. -/
structure Begun (s : Storage) (crypto : CryptoEngine) : Prop where
  enabled : s.enabled = true
  file : s.wal <+: crypto.walMode.magic ∨ crypto.walMode.magic <+: s.wal
  handle : ∀ h, s.handle = some h → h.mode = crypto.walMode ∧ crypto.walMode.magic <+: s.wal

section
variable {P : Primitives} {crypto : CryptoEngine} {s : Storage}

theorem crashed_wal (s : Storage) (size : Nat) : (s.crashed size).wal = s.wal.take size := by
  simp only [Storage.wal, crashed]
  cases s.disk.wal with
  | none => simp
  | some file => rfl

theorem appendRecordEncrypted_extends (P : Primitives) (fault : Fault) (f : SealedFile)
    (r : Record) : f.bytes <+: (appendRecordEncrypted P fault f r).1.bytes := by
  simp only [appendRecordEncrypted]
  split
  · exact List.prefix_rfl
  · split
    · exact List.prefix_rfl
    · exact List.prefix_append _ _

theorem log_extends (P : Primitives) (fault : Fault) (s : Storage) (c : LogCall) :
    s.wal <+: (s.log P fault c).1.wal ∧
      (s.log P fault c).1.handle.map (·.mode) = s.handle.map (·.mode) := by
  rcases log_reaches P fault s c with kept | appends
  · rw [kept]
    exact ⟨List.prefix_rfl, rfl⟩
  rw [appends]
  cases handle : s.handle with
  | none =>
    simp only [appendRecord, handle]
    exact ⟨List.prefix_rfl, trivial⟩
  | some h =>
    obtain ⟨mode, ctr⟩ := h
    simp only [appendRecord, handle]
    cases mode with
    | migrating key => exact ⟨List.prefix_rfl, by rw [handle]⟩
    | encrypted key =>
      exact ⟨appendRecordEncrypted_extends P fault ⟨s.wal, key, ctr, s.shardID, s.sealed⟩ _, rfl⟩
    | plaintext => exact ⟨List.prefix_append _ _, by simp [setWal, handle]⟩

theorem Begun.fresh (crypto : CryptoEngine) (shardID : Nat) : (fresh shardID).Begun crypto where
  enabled := rfl
  file := Or.inl (List.nil_prefix)
  handle h none := by cases none

theorem Begun.under (begun : s.Begun crypto) (start : crypto.walMode.magic <+: s.wal) (ctr : UInt64) :
    ({ s.setWal s.wal with handle := some ⟨crypto.walMode, ctr⟩ } : Storage).Begun crypto where
  enabled := begun.enabled
  file := begun.file
  handle h some := by
    cases some
    exact ⟨rfl, start⟩

theorem Begun.unopened (begun : s.Begun crypto) : (s.setWal s.wal).Begun crypto :=
  ⟨begun.enabled, begun.file, begun.handle⟩

theorem Begun.start {key : CipherKey} (begun : s.Begun (.chacha key))
    (long : walMagicLen ≤ s.wal.length) : walMagic <+: s.wal := by
  rcases begun.file with part | whole
  · rw [part.eq_of_length_le long]
    exact List.prefix_rfl
  · exact whole

theorem Begun.openShard (begun : s.Begun crypto) :
    (s.openShard crypto).1.Begun crypto ∧ (s.OpensAs crypto ↔ s.Reopenable crypto) := by
  have on : (!s.enabled) = false := by simp [begun.enabled]
  simp only [OpensAs, Reopenable, Storage.openShard, on, Bool.false_eq_true, ↓reduceIte,
    List.length_eq_zero_iff]
  by_cases empty : s.wal = []
  · simp only [empty, ↓reduceIte, true_or, iff_true]
    cases crypto with
    | chacha key =>
      refine ⟨⟨begun.enabled, Or.inr List.prefix_rfl, ?_⟩, rfl, rfl⟩
      intro h opened
      cases opened
      exact ⟨rfl, List.prefix_rfl⟩
    | passThrough =>
      have opened := begun.under (by rw [empty]; exact List.prefix_rfl) 0
      rw [empty] at opened
      exact ⟨opened, rfl, rfl⟩
  simp only [empty, ↓reduceIte, false_or]
  by_cases short : s.wal.length < walMagicLen
  · rw [readFull_short short]
    refine ⟨begun.unopened, ?_⟩
    simp only [reduceCtorEq, false_and, false_iff]
    intro reopenable
    omega
  have long : walMagicLen ≤ s.wal.length := Nat.le_of_not_lt short
  simp only [readFull, long, ↓reduceIte, true_and]
  cases crypto with
  | chacha key =>
    have magic : s.wal.take walMagicLen = walMagic := (List.prefix_iff_eq_take.mp (begun.start long)).symm
    simp only [magic, ↓reduceIte]
    refine ⟨begun.under (begun.start long) 0, ?_⟩
    simp [CryptoEngine.walMode]
  | passThrough =>
    by_cases magic : s.wal.take walMagicLen = walMagic
    · simp only [magic, ↓reduceIte]
      exact ⟨begun.unopened, by simp⟩
    · simp only [magic, ↓reduceIte]
      exact ⟨begun.under List.nil_prefix 0, by simp [CryptoEngine.walMode, magic]⟩

theorem Begun.log (begun : s.Begun crypto) (fault : Fault) (c : LogCall) :
    (s.log P fault c).1.Begun crypto := by
  obtain ⟨grown, modes⟩ := log_extends P fault s c
  obtain ⟨-, -, on, -⟩ := log_frame P fault s c
  have opened (h : ShardHandle) (handle : (s.log P fault c).1.handle = some h) :
      h.mode = crypto.walMode ∧ crypto.walMode.magic <+: s.wal := by
    rw [handle, Option.map_some] at modes
    cases before : s.handle with
    | none =>
      rw [before] at modes
      cases modes
    | some old =>
      rw [before, Option.map_some, Option.some.injEq] at modes
      rw [modes]
      exact begun.handle old before
  refine ⟨on.trans begun.enabled, ?_, fun h handle => ?_⟩
  · cases handle : (s.log P fault c).1.handle with
    | none =>
      -- Without a handle nothing was written.
      rw [handle, Option.map_none, eq_comm, Option.map_eq_none_iff] at modes
      rw [log_blocked fault begun.enabled (Or.inr (Or.inr (Or.inl modes)))]
      exact begun.file
    | some h => exact Or.inr ((opened h handle).2.trans grown)
  · exact ⟨(opened h handle).1, (opened h handle).2.trans grown⟩

theorem Begun.crashed (begun : s.Begun crypto) (size : Nat) : (s.crashed size).Begun crypto := by
  refine ⟨begun.enabled, ?_, fun h none => by cases none⟩
  rw [crashed_wal]
  rcases begun.file with part | whole
  · exact Or.inl ((List.take_prefix _ _).trans part)
  · rcases Nat.le_total size crypto.walMode.magic.length with short | long
    · exact Or.inl (List.prefix_of_prefix_length_le (List.take_prefix _ _) whole (by simp; omega))
    · exact Or.inr (List.prefix_take_iff.mpr ⟨whole, long⟩)

theorem Begun.walRun (begun : s.Begun crypto) (events : List WalEvent) :
    (s.walRun P crypto events).Begun crypto := by
  induction events generalizing s with
  | nil => exact begun
  | cons event events ih =>
    apply ih
    cases event with
    | openShard => exact begun.openShard.1
    | append fault call => exact begun.log fault call
    | crash size => exact begun.crashed size

end

end Storage

/-- Of the prefixes of a log that only this engine has written, with any crashes and failed
writes, OpenShard opens exactly the reopenable ones. -/
theorem reopens_iff (P : Primitives) (crypto : CryptoEngine) (shardID : Nat)
    (events : List WalEvent) (size : Nat) :
    let s := ((Storage.fresh shardID).walRun P crypto events).crashed size
    s.OpensAs crypto ↔ s.Reopenable crypto := by
  have begun := (Storage.Begun.fresh crypto shardID).walRun (P := P) events
  exact (begun.crashed size).openShard.2

theorem openShard_clash (P : Primitives) {key : Bytes} (clash : key.length = uint walMagic) :
    let s := (Storage.fresh 0).walRun P .passThrough
      [.openShard, .append none (.write key [1] none)]
    (s.openShard .passThrough).2 = some (.encryptedWithoutKey 0) := by
  have size : ¬ 4294967295 < key.length := by
    rw [clash]
    decide
  have start (rest : Bytes) : readFull walMagicLen (putUint 4 key.length ++ rest) =
      some (walMagic, rest) := by
    rw [clash]
    exact readFull_append rest rfl
  simp [Storage.walRun, Storage.walStep, Storage.openShard, Storage.fresh, Storage.log,
    Storage.write, size, Storage.appendRecord, writeSync, Storage.setWal, Storage.wal, Disk.empty,
    maxUint32, Record.set, Record.header, start]

/-- Refused are a record cut after two bytes and a whole one whose key length spells the magic. -/
theorem own_log_refused :
    let opened (events : List WalEvent) :=
      (((Storage.fresh 0).walRun .tagged .passThrough (.openShard :: events)).openShard
        .passThrough).2
    opened [.append (some 2) (.write [107] [1] none)] = some .readWALHeader ∧
    opened [.append none (.write (List.replicate (uint walMagic) 107) [1] none)] =
      some (.encryptedWithoutKey 0) :=
  ⟨rfl, openShard_clash .tagged List.length_replicate⟩

end Tellstone
