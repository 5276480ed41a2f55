import Tellstone.Persistence.Migration

/-! Counter nonces over whole runs with crashes at any point: every seal of a shard goes on
record. -/
namespace Tellstone
open ByteStream Framing

/-- Where LoadShard dies with the files neither as before nor as after it. -/
inductive LoadCut where
  /-- An encrypted replay has written the sidecar and not yet cut the tail. -/
  | untruncated
  /-- A migration has renamed its file and not yet written the sidecar. -/
  | unrecorded
  deriving DecidableEq, Repr

/-- A step of a shard's storage, across processes. A torn append is a faulty
`log`, a torn migration a faulty `loadShard`, with `crash` behind it. -/
inductive ShardEvent where
  | openShard (crypto : CryptoEngine)
  | loadShard (now : Time) (order : MapOrder) (faults : Nat → Fault) (e : Engine)
  | loadCrash (cut : LoadCut) (now : Time) (order : MapOrder) (e : Engine)
  | log (fault : Fault) (c : LogCall)
  | snapshot (now : Time) (order : MapOrder) (fork : Bool) (e : Engine)
  | snapshotCrash (now : Time) (order : MapOrder) (fork : Bool) (e : Engine)
  | crash

def Storage.sealing (s : Storage) : Bool :=
  match s.handle with
  | some ⟨.encrypted _, _⟩ => true
  | _ => false

def Storage.migratesTo (s : Storage) : Option CipherKey :=
  match s.handle with
  | some ⟨.migrating pending, _⟩ => some pending
  | _ => none

def Storage.relogged (s : Storage) (wal : Option Bytes) : Storage :=
  { s with disk := { s.disk with wal := wal } }

/-- A storage with two facts of its history: the log was begun or rewritten in
the encrypted format, and the open handle counts on from what was sealed. -/
structure World where
  storage : Storage
  encrypted : Bool
  ready : Bool

namespace World

def initial (shardID : Nat) : World := ⟨.fresh shardID, false, false⟩

def loadCut (P : Primitives) (now : Time) (order : MapOrder) (s : Storage) (e : Engine) :
    LoadCut → Storage
  | .untruncated =>
    let l := s.loadShard P now order (fun _ => none) e
    if s.sealing then { l.storage with disk := { l.storage.disk with wal := s.disk.wal } } else s
  | .unrecorded =>
    let l := s.loadShard P now order (fun _ => none) e
    if s.migratesTo.isSome then
      { l.storage with disk := { l.storage.disk with nonce := s.disk.nonce } }
    else s

def step (P : Primitives) (w : World) : ShardEvent → World
  | .openShard crypto =>
    let (s, err) := w.storage.openShard crypto
    if err = none then ⟨s, w.encrypted || s.sealing, s.sealed.isEmpty⟩
    else ⟨s, w.encrypted, w.ready⟩
  | .loadShard now order faults e =>
    let l := w.storage.loadShard P now order faults e
    ⟨l.storage, w.encrypted || l.storage.sealing, w.ready || l.err.isNone⟩
  | .loadCrash cut now order e =>
    let s := loadCut P now order w.storage e cut
    ⟨s.crash, w.encrypted || s.sealing, false⟩
  | .log fault c => ⟨(w.storage.log P fault c).1, w.encrypted, w.ready⟩
  | .snapshot now order fork e =>
    ⟨(w.storage.snapshot P now order fork e).1, w.encrypted, w.ready⟩
  | .snapshotCrash now order fork e =>
    ⟨(w.storage.dumpSnapshot P now order fork e).1.crash, w.encrypted, false⟩
  | .crash => ⟨w.storage.crash, w.encrypted, false⟩

def run (P : Primitives) : World → List ShardEvent → World
  | w, [] => w
  | w, event :: events => run P (w.step P event) events

/-- Nothing has been sealed when a migration starts, and its counter cannot wrap. -/
def carefulLoad (w : World) (e : Engine) : Bool :=
  match w.storage.migratesTo with
  | none => true
  | some _ => w.storage.sealed.isEmpty &&
      decide (e.size + (w.storage.disk.snap.getD []).length + w.storage.wal.length < 2 ^ 64)

/-- An append to an encrypted log comes after a load, below the last counter, and reaches the file
whole. -/
def carefulLog (w : World) (fault : Fault) (c : LogCall) : Bool :=
  match w.storage.handle with
  | some ⟨.encrypted key, ctr⟩ =>
    w.ready && decide (ctr.toNat + 1 < 2 ^ 64) &&
      (decide (maxUint32 < c.record.key.length) || decide (maxUint32 < c.record.value.length) ||
        decide (sealedLen c.record ≤ maxUint32) &&
          match fault with
          | none => true
          | some n => decide ((WalMode.encrypted key).frameSize c.record ≤ n))
  | _ => true

/-- The key the log was sealed with, or a new one where nothing was sealed and the log does not
look encrypted. -/
def carefulOpen (w : World) (key : CipherKey) : Bool :=
  if w.encrypted then w.storage.sealed.all fun call => decide (call.key = key)
  else w.storage.sealed.isEmpty && decide (w.storage.wal.take walMagicLen ≠ walMagic)

def careful (w : World) : ShardEvent → Bool
  | .openShard (.chacha key) => w.carefulOpen key
  | .loadShard _ _ _ e => w.carefulLoad e
  | .loadCrash _ _ _ e => w.carefulLoad e
  | .log fault c => w.carefulLog fault c
  | _ => true

def carefulRun (P : Primitives) : World → List ShardEvent → Bool
  | _, [] => true
  | w, event :: events => w.careful event && carefulRun P (w.step P event) events

/-- An encrypted log holds what was sealed, in the order of its counters. A plaintext log goes
with the seals of at most one lost migration. -/
structure Recorded (P : Primitives) (s : Storage) (encrypted : Bool) (key : CipherKey)
    (entries : List LogEntry) : Prop where
  enabled : s.enabled = true
  sealed : s.sealed = entries.map (LogEntry.sealCall key s.shardID)
  ordered : entries.Pairwise fun a b => a.ctr < b.ctr
  bounded : ∀ r ∈ entries, r.ctr.toNat + 1 < 2 ^ 64
  file : encrypted = true →
    s.disk.wal = some (walMagic ++ entries.flatMap (LogEntry.bytes P key s.shardID)) ∧
    ∀ r ∈ entries, r.Fits

/-- The open handle has the format of the log and, once ready, counts above it. -/
def Follows (w : World) (key : CipherKey) (entries : List LogEntry) (h : ShardHandle) : Prop :=
  match h.mode with
  | .encrypted k =>
    w.encrypted = true ∧ k = key ∧ (w.ready = true → ∀ r ∈ entries, r.ctr < h.nonceCtr)
  | _ => w.encrypted = false

structure Holds (P : Primitives) (w : World) (key : CipherKey) (entries : List LogEntry) :
    Prop where
  recorded : Recorded P w.storage w.encrypted key entries
  handle : ∀ h, w.storage.handle = some h → w.Follows key entries h

section
variable {P : Primitives} {w w' : World} {key : CipherKey} {entries : List LogEntry}

theorem Recorded.congr {s s' : Storage} {encrypted : Bool}
    (record : Recorded P s encrypted key entries) (enabled : s'.enabled = s.enabled)
    (sealed : s'.sealed = s.sealed) (shardID : s'.shardID = s.shardID)
    (wal : encrypted = true → s'.disk.wal = s.disk.wal) :
    Recorded P s' encrypted key entries where
  enabled := enabled.trans record.enabled
  sealed := by rw [sealed, shardID, record.sealed]
  ordered := record.ordered
  bounded := record.bounded
  file := by
    intro enc
    rw [wal enc, shardID]
    exact record.file enc

theorem Holds.congr (held : w.Holds P key entries) (enabled : w'.storage.enabled = w.storage.enabled)
    (sealed : w'.storage.sealed = w.storage.sealed)
    (shardID : w'.storage.shardID = w.storage.shardID)
    (wal : w.encrypted = true → w'.storage.disk.wal = w.storage.disk.wal)
    (handle : w'.storage.handle = w.storage.handle ∨ w'.storage.handle = none)
    (encrypted : w'.encrypted = w.encrypted) (ready : w'.ready = true → w.ready = true) :
    w'.Holds P key entries where
  recorded := encrypted ▸ held.recorded.congr enabled sealed shardID wal
  handle := by
    intro h current
    rcases handle with same | gone
    · have before := held.handle h (same ▸ current)
      rcases h with ⟨mode, ctr⟩
      cases mode with
      | encrypted k =>
        exact ⟨encrypted.trans before.1, before.2.1, fun now => before.2.2 (ready now)⟩
      | plaintext => exact encrypted.trans before
      | migrating k => exact encrypted.trans before
    · rw [gone] at current
      cases current

theorem Holds.crash (held : w.Holds P key entries) :
    World.Holds P ⟨w.storage.crash, w.encrypted, false⟩ key entries :=
  held.congr rfl rfl rfl (fun _ => rfl) (Or.inr rfl) rfl (fun r => by cases r)

theorem Holds.snapshot (held : w.Holds P key entries) (now : Time) (order : MapOrder)
    (fork : Bool) (e : Engine) : (w.step P (.snapshot now order fork e)).Holds P key entries := by
  obtain ⟨enabled, sealed, shardID, handle, wal⟩ :=
    w.storage.snapshot_frame P now order fork e
  refine held.congr enabled sealed shardID (fun enc => ?_) (Or.inl handle) rfl id
  have file := (held.recorded.file enc).1
  rcases wal with same | same
  · exact same
  · refine same.trans ?_
    simp [Storage.wal, file]

theorem Holds.snapshotCrash (held : w.Holds P key entries) (now : Time) (order : MapOrder)
    (fork : Bool) (e : Engine) :
    (w.step P (.snapshotCrash now order fork e)).Holds P key entries := by
  obtain ⟨snap, dumped⟩ := w.storage.dumpSnapshot_frame P now order fork e
  simp only [step, dumped]
  exact held.congr rfl rfl rfl (fun _ => rfl) (Or.inr rfl) rfl (fun r => by cases r)

def openedAs (s : Storage) (bytes : Bytes) (mode : WalMode) : Storage :=
  { s.setWal bytes with handle := some ⟨mode, 0⟩ }

theorem openShard_cases {s : Storage} (enabled : s.enabled = true) (crypto : CryptoEngine) :
    (∃ err, s.openShard crypto = (s.setWal s.wal, some err)) ∨
      (∃ k, crypto = .chacha k ∧ s.wal = [] ∧
        s.openShard crypto = (openedAs s walMagic (.encrypted k), none)) ∨
      (∃ k, crypto = .chacha k ∧ s.wal.take walMagicLen = walMagic ∧
        s.openShard crypto = (openedAs s s.wal (.encrypted k), none)) ∨
      ∃ mode, (∀ k, mode ≠ .encrypted k) ∧ s.wal.take walMagicLen ≠ walMagic ∧
        s.openShard crypto = (openedAs s s.wal mode, none) := by
  have fromMagic {magic rest : Bytes} (read : readFull walMagicLen s.wal = some (magic, rest)) :
      s.wal.take walMagicLen = magic := by
    obtain ⟨split, length⟩ := readFull_some read
    rw [split, List.take_left' length]
  have empty (none : s.wal.length = 0) : s.wal.take walMagicLen ≠ walMagic := by
    rw [List.length_eq_zero_iff.mp none]
    simp [walMagic]
  simp only [Storage.openShard, enabled, Bool.not_true, Bool.false_eq_true, ↓reduceIte]
  by_cases none : s.wal.length = 0
  · simp only [none, ↓reduceIte]
    cases crypto with
    | chacha k => exact Or.inr (Or.inl ⟨k, rfl, List.length_eq_zero_iff.mp none, rfl⟩)
    | passThrough => exact Or.inr (Or.inr (Or.inr ⟨.plaintext, by simp, empty none, rfl⟩))
  · simp only [none, ↓reduceIte]
    rcases read : readFull walMagicLen s.wal with _ | ⟨magic, rest⟩
    · exact Or.inl ⟨_, rfl⟩
    · simp only
      have start := fromMagic read
      split
      · rename_i same
        cases crypto with
        | chacha k => exact Or.inr (Or.inr (Or.inl ⟨k, rfl, start.trans same, rfl⟩))
        | passThrough => exact Or.inl ⟨_, rfl⟩
      · rename_i other
        cases crypto with
        | chacha k =>
          exact Or.inr (Or.inr (Or.inr ⟨.migrating k, by simp, fun h => other (start ▸ h), rfl⟩))
        | passThrough =>
          exact Or.inr (Or.inr (Or.inr ⟨.plaintext, by simp, fun h => other (start ▸ h), rfl⟩))

theorem Recorded.wal_magic {s : Storage} (record : Recorded P s true key entries) :
    s.wal.take walMagicLen = walMagic := by
  rw [Storage.wal, (record.file rfl).1, Option.getD_some]
  exact List.take_left' rfl

theorem Recorded.rekey {s : Storage} {encrypted : Bool} {k : CipherKey}
    (record : Recorded P s encrypted key entries)
    (same : s.sealed.all (fun call => decide (call.key = k)) = true) :
    Recorded P s encrypted k entries := by
  cases entries with
  | nil => exact ⟨record.enabled, record.sealed, record.ordered, record.bounded, record.file⟩
  | cons r rest =>
    rw [record.sealed] at same
    simp only [List.map_cons, List.all_cons, Bool.and_eq_true, decide_eq_true_eq] at same
    obtain ⟨rfl, -⟩ := same
    exact record

theorem Recorded.entries_nil {s : Storage} {encrypted : Bool}
    (record : Recorded P s encrypted key entries) (fresh : s.sealed.isEmpty = true) :
    entries = [] := by
  simpa [record.sealed] using fresh

theorem Holds.openShard (held : w.Holds P key entries) (crypto : CryptoEngine)
    (careful : w.careful (.openShard crypto) = true) :
    ∃ key', (w.step P (.openShard crypto)).Holds P key' entries := by
  obtain ⟨s, encrypted, ready⟩ := w
  have record := held.recorded
  simp only at record
  have kept : encrypted = true → (s.setWal s.wal).disk.wal = s.disk.wal := by
    intro enc
    simp [Storage.setWal, Storage.wal, (record.file enc).1]
  simp only [step]
  rcases openShard_cases record.enabled crypto with
    ⟨err, ran⟩ | ⟨k, rfl, empty, ran⟩ | ⟨k, rfl, magic, ran⟩ | ⟨mode, plain, other, ran⟩
  · simp only [ran]
    exact ⟨key, held.congr rfl rfl rfl kept (Or.inl rfl) rfl id⟩
  · simp only [ran]
    cases encrypted with
    | true =>
      have magic := record.wal_magic
      rw [empty] at magic
      cases magic
    | false =>
      simp only [World.careful, carefulOpen, Bool.false_eq_true, ↓reduceIte,
        Bool.and_eq_true] at careful
      obtain rfl := record.entries_nil careful.1
      refine ⟨k, ⟨record.enabled, record.sealed, record.ordered, record.bounded, ?_⟩, ?_⟩
      · exact fun _ => ⟨by simp [openedAs, Storage.setWal], by simp⟩
      · rintro h ⟨rfl⟩
        exact ⟨rfl, rfl, by simp⟩
  · simp only [ran]
    cases encrypted with
    | true =>
      simp only [World.careful, carefulOpen, ↓reduceIte] at careful
      refine ⟨k, (record.rekey careful).congr rfl rfl rfl kept, ?_⟩
      rintro h ⟨rfl⟩
      exact ⟨rfl, rfl, fun fresh => by simp [record.entries_nil fresh]⟩
    | false =>
      simp only [World.careful, carefulOpen, Bool.false_eq_true, ↓reduceIte, Bool.and_eq_true,
        decide_eq_true_eq] at careful
      exact absurd magic careful.2
  · simp only [ran]
    cases encrypted with
    | true => exact absurd record.wal_magic other
    | false =>
      have next : Recorded P (openedAs s s.wal mode) false key entries :=
        record.congr rfl rfl rfl (fun enc => by cases enc)
      cases mode with
      | encrypted k => exact absurd rfl (plain k)
      | plaintext =>
        refine ⟨key, next, ?_⟩
        rintro h ⟨rfl⟩
        rfl
      | migrating k =>
        refine ⟨key, next, ?_⟩
        rintro h ⟨rfl⟩
        rfl

theorem lt_succ_of_le {a ctr : UInt64} (last : ctr.toNat + 1 < 2 ^ 64) (le : a ≤ ctr) :
    a < ctr + 1 := by
  rw [UInt64.le_iff_toNat_le] at le
  rw [UInt64.lt_iff_toNat_lt, UInt64.toNat_add, UInt64.toNat_one, Nat.mod_eq_of_lt last]
  omega

theorem Recorded.append {s : Storage} {ctr : UInt64} {c : LogCall}
    (record : Recorded P s true key entries) (above : ∀ r ∈ entries, r.ctr < ctr)
    (last : ctr.toNat + 1 < 2 ^ 64) (fits : LogEntry.Fits ⟨ctr, c.record⟩) :
    Recorded P (s.appended ⟨.encrypted key, ctr⟩ c.record
      (LogEntry.bytes P key s.shardID ⟨ctr, c.record⟩)) true key (entries ++ [⟨ctr, c.record⟩]) where
  enabled := record.enabled
  sealed := by
    simp [Storage.appended, Storage.setWal, record.sealed, WalMode.sealCalls, LogEntry.sealCall]
  ordered := by
    refine List.pairwise_append.mpr ⟨record.ordered, List.pairwise_singleton _ _, ?_⟩
    intro a mem b new
    rw [List.mem_singleton.mp new]
    exact above a mem
  bounded := by
    intro r mem
    rcases List.mem_append.mp mem with old | new
    · exact record.bounded r old
    · rw [List.mem_singleton.mp new]
      exact last
  file := by
    refine fun _ => ⟨?_, ?_⟩
    · simp [Storage.appended, Storage.setWal, Storage.wal, (record.file rfl).1]
    · intro r mem
      rcases List.mem_append.mp mem with old | new
      · exact (record.file rfl).2 r old
      · rw [List.mem_singleton.mp new]
        exact fits

theorem Holds.log_plaintext (law : P.Lawful) {s : Storage} {ready : Bool} {ctr : UInt64}
    (held : World.Holds P ⟨s, false, ready⟩ key entries) (handle : s.handle = some ⟨.plaintext, ctr⟩)
    (fault : Fault) (c : LogCall) :
    (World.step P ⟨s, false, ready⟩ (.log fault c)).Holds P key entries := by
  have record : Recorded P s false key entries := held.recorded
  have frame (written : Bytes) : World.Holds P
      ⟨s.appended ⟨.plaintext, ctr⟩ c.record written, false, ready⟩ key entries := by
    refine ⟨record.congr rfl (by simp [Storage.appended, WalMode.sealCalls]) rfl
      (fun enc => by cases enc), ?_⟩
    rintro h ⟨rfl⟩
    rfl
  simp only [step]
  cases accepted : WalMode.plaintext.accepts c with
  | true =>
    rw [Storage.log_accepted law fault record.enabled handle rfl accepted]
    exact frame _
  | false =>
    obtain ⟨-, same | counted⟩ := Storage.log_refused law fault record.enabled handle accepted
    · rw [same]
      exact held
    · rw [counted]
      exact frame _

theorem Holds.log_encrypted (law : P.Lawful) {s : Storage} {ready : Bool} {ctr : UInt64}
    (record : Recorded P s true key entries) (handle : s.handle = some ⟨.encrypted key, ctr⟩)
    (above : ∀ r ∈ entries, r.ctr < ctr) (last : ctr.toNat + 1 < 2 ^ 64) {c : LogCall}
    (fits : LogEntry.Fits ⟨ctr, c.record⟩) (accepted : (WalMode.encrypted key).accepts c = true)
    {fault : Fault} (reached : fault.cut ((WalMode.encrypted key).frame P s.shardID ⟨ctr, c.record⟩) =
      LogEntry.bytes P key s.shardID ⟨ctr, c.record⟩) :
    (World.step P ⟨s, true, ready⟩ (.log fault c)).Holds P key (entries ++ [⟨ctr, c.record⟩]) := by
  have next := record.append above last fits
  simp only [step, Storage.log_accepted law fault record.enabled handle rfl accepted, reached]
  refine ⟨next, ?_⟩
  rintro h ⟨rfl⟩
  refine ⟨rfl, rfl, fun _ r mem => ?_⟩
  rcases List.mem_append.mp mem with old | new
  · exact lt_succ_of_le last (UInt64.le_of_lt (above r old))
  · rw [List.mem_singleton.mp new]
    exact lt_succ_of_le last (UInt64.le_refl _)

theorem Holds.log (law : P.Lawful) (held : w.Holds P key entries) (fault : Fault) (c : LogCall)
    (careful : w.careful (.log fault c) = true) :
    ∃ entries', (w.step P (.log fault c)).Holds P key entries' := by
  obtain ⟨s, encrypted, ready⟩ := w
  have record := held.recorded
  simp only at record
  have blocked (why : maxUint32 < c.record.key.length ∨ maxUint32 < c.record.value.length ∨
      s.handle = none ∨ ∃ key ctr, s.handle = some ⟨.migrating key, ctr⟩) :
      ∃ entries', (World.step P ⟨s, encrypted, ready⟩ (.log fault c)).Holds P key entries' := by
    simp only [step, Storage.log_blocked fault record.enabled why]
    exact ⟨entries, held⟩
  cases handle : s.handle with
  | none => exact blocked (Or.inr (Or.inr (Or.inl handle)))
  | some h =>
    have follows := held.handle h handle
    rcases h with ⟨mode, ctr⟩
    cases mode with
    | migrating k => exact blocked (Or.inr (Or.inr (Or.inr ⟨k, ctr, handle⟩)))
    | plaintext =>
      have plain : encrypted = false := follows
      subst plain
      exact ⟨entries, held.log_plaintext law handle fault c⟩
    | encrypted k =>
      obtain ⟨rfl, rfl, above⟩ := follows
      simp only [World.careful, carefulLog, handle, Bool.and_eq_true, Bool.or_eq_true,
        decide_eq_true_eq] at careful
      obtain ⟨⟨isReady, last⟩, why⟩ := careful
      rcases why with (large | large) | ⟨room, whole⟩
      · exact blocked (Or.inl large)
      · exact blocked (Or.inr (Or.inl large))
      · have fits : LogEntry.Fits ⟨ctr, c.record⟩ := LogEntry.fits_of_size room
        have accepted : (WalMode.encrypted k).accepts c = true := by
          simp [WalMode.accepts, WalMode.roomFor, fits.record.key, fits.record.value, room]
        have reached : fault.cut ((WalMode.encrypted k).frame P s.shardID ⟨ctr, c.record⟩) =
            LogEntry.bytes P k s.shardID ⟨ctr, c.record⟩ := by
          cases fault with
          | none => rfl
          | some n =>
            simp only [decide_eq_true_eq] at whole
            exact List.take_of_length_le
              ((WalMode.frame_length law s.shardID (.encrypted k) ⟨ctr, c.record⟩).trans_le whole)
        exact ⟨_, Holds.log_encrypted law record handle (above isReady) last fits accepted reached⟩

theorem raise_bounds (key : CipherKey) (start : UInt64) (rs : List LogEntry) :
    let high := rs.foldl (WalMode.raise (.encrypted key)) start
    start ≤ high ∧ (∀ r ∈ rs, r.ctr ≤ high) ∧ (high = start ∨ ∃ r ∈ rs, high = r.ctr) := by
  induction rs generalizing start with
  | nil => exact ⟨UInt64.le_refl _, by simp, Or.inl rfl⟩
  | cons r rs ih =>
    obtain ⟨low, all, found⟩ := ih (WalMode.raise (.encrypted key) start r)
    have step : start ≤ WalMode.raise (.encrypted key) start r ∧
        r.ctr ≤ WalMode.raise (.encrypted key) start r ∧
        (WalMode.raise (.encrypted key) start r = start ∨
          WalMode.raise (.encrypted key) start r = r.ctr) := by
      simp only [WalMode.raise]
      split
      · rename_i more
        exact ⟨UInt64.le_of_lt more, UInt64.le_refl _, Or.inr rfl⟩
      · rename_i less
        exact ⟨UInt64.le_refl _, UInt64.not_lt.mp less, Or.inl rfl⟩
    simp only [List.foldl_cons]
    refine ⟨UInt64.le_trans step.1 low, ?_, ?_⟩
    · exact List.forall_mem_cons.mpr ⟨UInt64.le_trans step.2.1 low, all⟩
    · rcases found with same | ⟨b, mem, eq⟩
      · rcases step.2.2 with kept | raised
        · exact Or.inl (same.trans kept)
        · exact Or.inr ⟨r, List.mem_cons_self, same.trans raised⟩
      · exact Or.inr ⟨b, List.mem_cons_of_mem r mem, eq⟩

theorem resumeCtr_above (s : Storage) (key : CipherKey) {rs : List LogEntry}
    (bounded : ∀ r ∈ rs, r.ctr.toNat + 1 < 2 ^ 64) :
    ∀ r ∈ rs, r.ctr < s.resumeCtr (rs.foldl (WalMode.raise (.encrypted key)) 0) := by
  intro r mem
  obtain ⟨-, all, found⟩ := raise_bounds key 0 rs
  have last : (rs.foldl (WalMode.raise (.encrypted key)) 0).toNat + 1 < 2 ^ 64 := by
    rcases found with zero | ⟨b, at_b, eq⟩
    · rw [zero]
      decide
    · rw [eq]
      exact bounded b at_b
  have below := lt_succ_of_le last (all r mem)
  simp only [Storage.resumeCtr]
  split
  · rename_i more
    exact UInt64.lt_trans below more
  · exact below

theorem loadShard_sealing (law : P.Lawful) {s : Storage} {ctr : UInt64}
    (record : Recorded P s true key entries) (handle : s.handle = some ⟨.encrypted key, ctr⟩)
    (now : Time) (order : MapOrder) (faults : Nat → Fault) (e : Engine) :
    let l := s.loadShard P now order faults e
    l.err ≠ none ∧ l.storage = s ∨
      l.err = none ∧ l.storage = s.recovered P ⟨.encrypted key, ctr⟩ entries := by
  have logs : s.Logs P ⟨.encrypted key, ctr⟩ entries [] :=
    ⟨handle, (record.file rfl).1.trans (by rw [List.append_nil]; rfl), (record.file rfl).2⟩
  rcases snap : s.loadSnapshot P now e with ⟨e', _ | err⟩
  · rw [Storage.loadShard_log law record.enabled logs (Or.inl rfl) rfl now order faults snap]
    rcases ran : replayRecords P now e' (entries.map (·.record)) with ⟨e'', _ | err⟩ <;>
      simp only [ran]
    · exact Or.inr ⟨trivial, trivial⟩
    · exact Or.inl ⟨by simp, trivial⟩
  · simp only [Storage.loadShard, record.enabled, snap]
    exact Or.inl ⟨by simp, rfl⟩

theorem replayWAL_frame (P : Primitives) (now : Time) {s : Storage} (e : Engine)
    (plain : s.sealing = false) :
    ∃ wal, (s.replayWAL P now e).storage = s.relogged wal := by
  have unsealed : ∃ wal, (s.replayWALPlaintext P now e).storage =
      s.relogged wal := by
    simp only [Storage.replayWALPlaintext]
    split
    · exact ⟨s.disk.wal, rfl⟩
    · simp only [Storage.finishReplay]
      split
      · exact ⟨_, rfl⟩
      · exact ⟨s.disk.wal, rfl⟩
  cases handle : s.handle with
  | none =>
    refine ⟨s.disk.wal, ?_⟩
    rw [Storage.replayWAL, handle]
    rfl
  | some h =>
    rcases h with ⟨mode, ctr⟩
    cases mode with
    | encrypted k => simp [Storage.sealing, handle] at plain
    | plaintext => simpa only [Storage.replayWAL, handle] using unsealed
    | migrating k => simpa only [Storage.replayWAL, handle] using unsealed

theorem loadShard_plaintext (P : Primitives) (now : Time) (order : MapOrder)
    (faults : Nat → Fault) (s : Storage) (e : Engine) (plain : s.sealing = false)
    (settled : s.migratesTo = none) :
    ∃ wal, (s.loadShard P now order faults e).storage =
      s.relogged wal := by
  simp only [Storage.loadShard]
  split
  · exact ⟨s.disk.wal, rfl⟩
  rcases s.loadSnapshot P now e with ⟨e', _ | err⟩
  · obtain ⟨wal, frame⟩ := replayWAL_frame P now e' plain
    simp only
    split
    · exact ⟨wal, frame⟩
    split
    · rename_i k ctr handle
      rw [frame] at handle
      rw [Storage.migratesTo, show s.handle = _ from handle] at settled
      cases settled
    · exact ⟨wal, frame⟩
  · exact ⟨s.disk.wal, rfl⟩

theorem loadShard_migrating (P : Primitives) (now : Time) (order : MapOrder)
    (faults : Nat → Fault) {s : Storage} {k : CipherKey} {ctr : UInt64} (e : Engine)
    (enabled : s.enabled = true) (handle : s.handle = some ⟨.migrating k, ctr⟩) :
    let l := s.loadShard P now order faults e
    ∃ wal, (l.err ≠ none ∧ l.storage = s.relogged wal) ∨
      ∃ e' : Engine, e'.size ≤ e.size + (s.disk.snap.getD []).length + s.wal.length ∧
        l.storage = ((s.relogged wal).migrate P now order faults k e').1 ∧
        l.err = ((s.relogged wal).migrate P now order faults k e').2 := by
  have plain : s.sealing = false := by simp [Storage.sealing, handle]
  simp only [Storage.loadShard, enabled, Bool.not_true, Bool.false_eq_true, ↓reduceIte]
  rcases snap : s.loadSnapshot P now e with ⟨e', _ | err⟩
  · have loaded : e'.size ≤ e.size + (s.disk.snap.getD []).length := by
      simp only [Storage.loadSnapshot] at snap
      split at snap
      · obtain ⟨rfl, -⟩ := Prod.mk.inj snap
        exact size_snapshotRead_le P now _ e _
      · cases snap
        exact Nat.le_add_right _ _
    have replayed : (s.replayWAL P now e').engine.size ≤ e'.size + s.wal.length := by
      simp only [Storage.replayWAL, handle]
      exact s.size_replayWALPlaintext_le P now e'
    obtain ⟨wal, frame⟩ := replayWAL_frame P now e' plain
    refine ⟨wal, ?_⟩
    simp only
    rcases (s.replayWAL P now e').err with _ | err
    · refine Or.inr ⟨(s.replayWAL P now e').engine, by omega, ?_⟩
      simp only [frame, show (s.relogged wal).handle = _ from handle, and_self]
    · exact Or.inl ⟨by simp, frame⟩
  · exact ⟨s.disk.wal, Or.inl ⟨by simp, rfl⟩⟩

theorem migrate_recorded (law : P.Lawful) (now : Time) (order : MapOrder) (faults : Nat → Fault)
    {s : Storage} {e : Engine} (k : CipherKey) (enabled : s.enabled = true)
    (fresh : s.sealed = []) (small : e.size < 2 ^ 64) :
    let m := s.migrate P now order faults k e
    ∃ added, Recorded P m.1 m.2.isNone k added ∧
      (m.2 ≠ none ∧ m.1.handle = s.handle ∨
        m.2 = none ∧ ∃ ctr, m.1.handle = some ⟨.encrypted k, ctr⟩ ∧ ∀ r ∈ added, r.ctr < ctr) := by
  have few := (e.size_forEach_le now order).trans_lt small
  have start : (s.migrationFile k).Counts [] [] := ⟨by simp [Storage.migrationFile, fresh], rfl, rfl⟩
  rcases ran : Storage.migrateRecords P k e.crypto.enabled faults (s.migrationFile k)
    (e.forEach now order) with ⟨f, err⟩
  obtain ⟨added, counts, key, id, length, whole⟩ :=
    Storage.migrateRecords_counts law faults 0 _ start (by simpa using few) ran
  rw [List.nil_append] at counts
  have below (r : LogEntry) (mem : r ∈ added) : r.ctr.toNat < added.length := by
    have := List.mem_map_of_mem mem (f := fun r : LogEntry => r.ctr.toNat)
    rwa [counts.ctrs, List.mem_range] at this
  have ordered : added.Pairwise fun a b => a.ctr < b.ctr := by
    have := List.pairwise_lt_range (n := added.length)
    rw [← counts.ctrs, List.pairwise_map] at this
    exact this.imp fun less => UInt64.lt_iff_toNat_lt.mpr less
  have bounded (r : LogEntry) (mem : r ∈ added) : r.ctr.toNat + 1 < 2 ^ 64 := by
    have := below r mem
    omega
  have sealed : f.sealed = added.map (LogEntry.sealCall k s.shardID) := by
    rw [counts.sealed, key, id, List.nil_append, Storage.migrationFile]
  refine ⟨added, ?_⟩
  simp only [Storage.migrate, ran]
  cases err with
  | some err =>
    exact ⟨⟨enabled, sealed, ordered, bounded, fun no => by cases no⟩, Or.inl ⟨by simp, rfl⟩⟩
  | none =>
    obtain ⟨bytes, fits⟩ := whole rfl
    refine ⟨⟨enabled, sealed, ordered, bounded, fun _ => ⟨?_, fits⟩⟩, Or.inr ⟨rfl, _, rfl, ?_⟩⟩
    · simp [writeNonceSidecar, bytes, Storage.migrationFile]
    · intro r mem
      rw [UInt64.lt_iff_toNat_lt, counts.next]
      exact below r mem

theorem Holds.load_sealing (law : P.Lawful) {s : Storage} {ready : Bool} {ctr : UInt64}
    (held : World.Holds P ⟨s, true, ready⟩ key entries)
    (handle : s.handle = some ⟨.encrypted key, ctr⟩) (now : Time) (order : MapOrder)
    (faults : Nat → Fault) (e : Engine) :
    (World.step P ⟨s, true, ready⟩ (.loadShard now order faults e)).Holds P key entries := by
  have record := held.recorded
  simp only [step, Bool.true_or]
  rcases loadShard_sealing law record handle now order faults e with ⟨failed, same⟩ | ⟨ok, same⟩
  · refine held.congr (by rw [same]) (by rw [same]) (by rw [same]) (fun _ => by rw [same])
      (Or.inl (by rw [same])) rfl ?_
    simp [failed]
  · rw [same]
    refine ⟨record.congr rfl rfl rfl (fun _ => ?_), ?_⟩
    · exact (record.file rfl).1.symm
    · rintro h ⟨rfl⟩
      exact ⟨rfl, rfl, fun _ => resumeCtr_above s key record.bounded⟩

theorem Holds.load_plaintext {s : Storage} {ready : Bool} {ctr : UInt64}
    (held : World.Holds P ⟨s, false, ready⟩ key entries)
    (handle : s.handle = some ⟨.plaintext, ctr⟩) (now : Time) (order : MapOrder)
    (faults : Nat → Fault) (e : Engine) :
    (World.step P ⟨s, false, ready⟩ (.loadShard now order faults e)).Holds P key entries := by
  obtain ⟨wal, frame⟩ := loadShard_plaintext P now order faults s e
    (by simp [Storage.sealing, handle]) (by simp [Storage.migratesTo, handle])
  have plain : (s.relogged wal).sealing = false := by
    simp [Storage.sealing, Storage.relogged, handle]
  simp only [step, frame, plain, Bool.or_false]
  refine ⟨held.recorded.congr rfl rfl rfl (fun enc => by cases enc), ?_⟩
  intro h current
  obtain rfl := Option.some.inj (handle.symm.trans current)
  rfl

theorem Holds.load_migrating (law : P.Lawful) {s : Storage} {ready : Bool} {k : CipherKey}
    {ctr : UInt64} (held : World.Holds P ⟨s, false, ready⟩ key entries)
    (handle : s.handle = some ⟨.migrating k, ctr⟩) (now : Time) (order : MapOrder)
    (faults : Nat → Fault) {e : Engine} (careful : World.carefulLoad ⟨s, false, ready⟩ e = true) :
    ∃ key' entries', (World.step P ⟨s, false, ready⟩
      (.loadShard now order faults e)).Holds P key' entries' := by
  have record := held.recorded
  simp only [carefulLoad, Storage.migratesTo, handle, Bool.and_eq_true, decide_eq_true_eq,
    List.isEmpty_iff] at careful
  obtain ⟨fresh, small⟩ := careful
  have pending (s' : Storage) (err : Option Error) (added : List LogEntry) (k' : CipherKey)
      (recorded : Recorded P s' false k' added) (same : s'.handle = s.handle) :
      World.Holds P ⟨s', false || s'.sealing, ready || err.isNone⟩ k' added := by
    have plain : s'.sealing = false := by simp [Storage.sealing, same, handle]
    rw [plain]
    refine ⟨recorded, fun h current => ?_⟩
    obtain rfl := Option.some.inj ((same.trans handle).symm.trans current)
    rfl
  simp only [step]
  obtain ⟨wal, ⟨failed, same⟩ | ⟨e', few, storage, err⟩⟩ :=
    loadShard_migrating P now order faults e record.enabled handle
  · rw [same]
    exact ⟨key, entries, pending _ _ _ _ (record.congr rfl rfl rfl (fun enc => by cases enc)) rfl⟩
  · obtain ⟨added, recorded, outcome⟩ := migrate_recorded law now order faults k
      (s := s.relogged wal) record.enabled fresh (few.trans_lt small)
    rw [storage, err]
    refine ⟨k, added, ?_⟩
    rcases outcome with ⟨failed, same⟩ | ⟨ok, ctr', current, above⟩
    · rw [Option.isNone_eq_false_iff.mpr (Option.isSome_iff_ne_none.mpr failed)] at recorded
      exact pending _ _ _ _ recorded same
    · rw [ok] at recorded
      have sealing : ((s.relogged wal).migrate P now order faults k e').1.sealing = true := by
        simp [Storage.sealing, current]
      rw [sealing]
      refine ⟨recorded, fun h now => ?_⟩
      obtain rfl := Option.some.inj (current.symm.trans now)
      exact ⟨rfl, rfl, fun _ => above⟩

theorem Holds.loadShard (law : P.Lawful) (held : w.Holds P key entries) (now : Time)
    (order : MapOrder) (faults : Nat → Fault) (e : Engine) (careful : w.carefulLoad e = true) :
    ∃ key' entries', (w.step P (.loadShard now order faults e)).Holds P key' entries' := by
  obtain ⟨s, encrypted, ready⟩ := w
  cases handle : s.handle with
  | none =>
    have unopened : (s.loadShard P now order faults e).storage = s ∧
        (s.loadShard P now order faults e).err ≠ none := by
      have enabled : s.enabled = true := held.recorded.enabled
      simp only [Storage.loadShard, enabled, Storage.replayWAL, handle]
      rcases s.loadSnapshot P now e with ⟨e', _ | err⟩ <;> simp
    refine ⟨key, entries, ?_⟩
    simp only [step, unopened.1]
    refine held.congr rfl rfl rfl (fun _ => rfl) (Or.inl rfl) ?_ ?_
    · simp [Storage.sealing, handle]
    · simp [unopened.2]
  | some h =>
    have follows := held.handle h handle
    rcases h with ⟨mode, ctr⟩
    cases mode with
    | encrypted k =>
      obtain ⟨rfl, rfl, -⟩ := follows
      exact ⟨k, entries, held.load_sealing law handle now order faults e⟩
    | plaintext =>
      have plain : encrypted = false := follows
      subst plain
      exact ⟨key, entries, held.load_plaintext handle now order faults e⟩
    | migrating k =>
      have plain : encrypted = false := follows
      subst plain
      exact held.load_migrating law handle now order faults careful

theorem Holds.sealing_encrypted (held : w.Holds P key entries) :
    (w.encrypted || w.storage.sealing) = w.encrypted := by
  cases handle : w.storage.handle with
  | none => simp [Storage.sealing, handle]
  | some h =>
    have follows := held.handle h handle
    rcases h with ⟨mode, ctr⟩
    cases mode with
    | encrypted k => simp [follows.1]
    | plaintext => simp [Storage.sealing, handle]
    | migrating k => simp [Storage.sealing, handle]

theorem Holds.loadCrash (law : P.Lawful) (held : w.Holds P key entries) (cut : LoadCut)
    (now : Time) (order : MapOrder) (e : Engine) (careful : w.carefulLoad e = true) :
    ∃ key' entries', (w.step P (.loadCrash cut now order e)).Holds P key' entries' := by
  have untouched (same : World.loadCut P now order w.storage e cut = w.storage) :
      ∃ key' entries', (w.step P (.loadCrash cut now order e)).Holds P key' entries' := by
    simp only [step, same, held.sealing_encrypted]
    exact ⟨key, entries, held.crash⟩
  cases cut with
  | untruncated =>
    cases sealing : w.storage.sealing with
    | false => exact untouched (by simp [loadCut, sealing])
    | true =>
      obtain ⟨s, encrypted, ready⟩ := w
      obtain ⟨k, ctr, handle⟩ : ∃ k ctr, s.handle = some ⟨.encrypted k, ctr⟩ := by
        simp only [Storage.sealing] at sealing
        split at sealing
        · exact ⟨_, _, by assumption⟩
        · cases sealing
      obtain ⟨rfl, rfl, -⟩ := held.handle _ handle
      refine ⟨k, entries, ?_⟩
      simp only [step, loadCut, sealing, ↓reduceIte, Bool.true_or]
      rcases loadShard_sealing law held.recorded handle now order (fun _ => none) e with
        ⟨-, same⟩ | ⟨-, same⟩
      · rw [same]
        exact held.crash
      · rw [same]
        exact held.congr rfl rfl rfl (fun _ => rfl) (Or.inr rfl) rfl (fun r => by cases r)
  | unrecorded =>
    cases pending : w.storage.migratesTo.isSome with
    | false => exact untouched (by simp [loadCut, pending])
    | true =>
      obtain ⟨key', entries', loaded⟩ := held.loadShard law now order (fun _ => none) e careful
      refine ⟨key', entries', ?_⟩
      simp only [step, loadCut, pending, ↓reduceIte] at loaded ⊢
      exact loaded.congr rfl rfl rfl (fun _ => rfl) (Or.inr rfl) rfl (fun r => by cases r)

theorem Holds.step (law : P.Lawful) (held : w.Holds P key entries) (event : ShardEvent)
    (careful : w.careful event = true) :
    ∃ key' entries', (w.step P event).Holds P key' entries' := by
  cases event with
  | openShard crypto =>
    obtain ⟨key', next⟩ := held.openShard crypto careful
    exact ⟨key', entries, next⟩
  | loadShard now order faults e => exact held.loadShard law now order faults e careful
  | loadCrash cut now order e => exact held.loadCrash law cut now order e careful
  | log fault c => exact ⟨key, held.log law fault c careful⟩
  | snapshot now order fork e => exact ⟨key, entries, held.snapshot now order fork e⟩
  | snapshotCrash now order fork e => exact ⟨key, entries, held.snapshotCrash now order fork e⟩
  | crash => exact ⟨key, entries, held.crash⟩

theorem Holds.run (law : P.Lawful) (events : List ShardEvent) (held : w.Holds P key entries)
    (careful : carefulRun P w events = true) :
    ∃ key' entries', (World.run P w events).Holds P key' entries' := by
  induction events generalizing w key entries with
  | nil => exact ⟨key, entries, held⟩
  | cons event events ih =>
    simp only [carefulRun, Bool.and_eq_true] at careful
    obtain ⟨key', entries', next⟩ := held.step law event careful.1
    exact ih next careful.2

theorem initial_holds (P : Primitives) (shardID : Nat) (key : CipherKey) :
    (initial shardID).Holds P key [] where
  recorded := ⟨rfl, rfl, List.Pairwise.nil, by simp, fun enc => by cases enc⟩
  handle := fun h open' => by cases open'

theorem Recorded.nonce_inj {s : Storage} {encrypted : Bool}
    (record : Recorded P s encrypted key entries) {a b : SealCall} (left : a ∈ s.sealed)
    (right : b ∈ s.sealed) (nonce : a.nonce = b.nonce) : a = b := by
  rw [record.sealed] at left right
  obtain ⟨r, memR, rfl⟩ := List.mem_map.mp left
  obtain ⟨q, memQ, rfl⟩ := List.mem_map.mp right
  have same : r.ctr = q.ctr := by
    have counters := congrArg counterOf nonce
    simpa only [LogEntry.sealCall, counterNonce, counterOf_putUint] using counters
  have : Std.Symm fun a b : LogEntry => a.ctr ≠ b.ctr := ⟨fun _ _ => Ne.symm⟩
  have distinct : entries.Pairwise fun a b => a.ctr ≠ b.ctr := record.ordered.imp UInt64.ne_of_lt
  by_contra differ
  exact distinct.forall memR memQ (fun eq => differ (by rw [eq])) same

end

end World

/-- Over any careful run, crashes included, no two plaintexts are sealed under one key and nonce. -/
theorem nonces_never_repeat {P : Primitives} (law : P.Lawful) (shardID : Nat)
    (events : List ShardEvent)
    (careful : World.carefulRun P (.initial shardID) events = true) :
    ∀ a ∈ (World.run P (.initial shardID) events).storage.sealed,
      ∀ b ∈ (World.run P (.initial shardID) events).storage.sealed,
        a.key = b.key → a.nonce = b.nonce → a.plaintext = b.plaintext := by
  intro a left b right _ nonce
  obtain ⟨key, entries, held⟩ :=
    (World.initial_holds P shardID ⟨List.replicate 32 0, rfl⟩).run law events careful
  rw [held.recorded.nonce_inj left right nonce]

def ShardEvent.restart (key : CipherKey) : List ShardEvent :=
  [.crash, .openShard (.chacha key),
    .loadShard 5 .asStored (fun _ => none) (.new 0 0 0 (.chacha key) 0)]

theorem nonces_never_repeat_restart :
    let key : CipherKey := ⟨List.replicate 32 0, rfl⟩
    let events := ShardEvent.restart key ++ [.log none (.write [97] [49] none)] ++
      ShardEvent.restart key ++ [.log none (.write [97] [50] none)]
    let sealed := (World.run .tagged (.initial 0) events).storage.sealed
    sealed.length = 2 ∧
      ∀ a ∈ sealed, ∀ b ∈ sealed, a.key = b.key → a.nonce = b.nonce → a.plaintext = b.plaintext :=
  ⟨by decide +kernel,
    nonces_never_repeat Primitives.tagged_lawful 0 _ (by decide +kernel)⟩

/-- The second append is torn after five bytes. Replay drops it, and the next append seals under
the same nonce. -/
theorem torn_append_reuses_nonce :
    let key : CipherKey := ⟨List.replicate 32 0, rfl⟩
    let events := ShardEvent.restart key ++
      [.log none (.write [97] [49] none), .log (some 5) (.write [98] [50] none)] ++
      ShardEvent.restart key ++ [.log none (.write [99] [51] none)]
    let sealed := (World.run .tagged (.initial 0) events).storage.sealed
    ∃ a ∈ sealed, ∃ b ∈ sealed, a.key = b.key ∧ a.nonce = b.nonce ∧ a.plaintext ≠ b.plaintext := by
  decide +kernel

end Tellstone
