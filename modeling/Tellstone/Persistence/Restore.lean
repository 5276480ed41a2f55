import Tellstone.Persistence.Lifecycle
import Tellstone.Persistence.Updates
import Tellstone.Storage.Accounting

/-! Loading a snapshot: the engine gets back the entries that were dumped, as
long as they have not expired. -/
namespace Tellstone
open ByteStream ExpiringMap Framing

section
variable {P : Primitives} {now : Nat} {e : Engine}

theorem restoreValue_full {key value : Bytes} (ttlNano : Int) (ttl : Duration)
    (full : e.full (key.length + value.length) = true) :
    restoreValue P now e ⟨key ++ value, key.length, ttlNano⟩ ttl =
      (e, some (.snapshotSet .engineFull)) := by
  simp only [restoreValue]
  cases on : e.crypto.enabled with
  | true => simp [Engine.setRaw, full]
  | false =>
    have refused : e.setFromBuffer P now (key ++ value) key.length ttl = (e, some .engineFull) := by
      simp [Engine.setFromBuffer, on, full]
    simp [refused]

theorem restoreValue_room {key value : Bytes} (ttlNano : Int) (ttl : Duration)
    (room : e.full (key.length + value.length) = false) :
    ∃ e', restoreValue P now e ⟨key ++ value, key.length, ttlNano⟩ ttl = (e', none) ∧
      e.Puts key value (expiry now ttl) e' := by
  simp only [restoreValue]
  cases on : e.crypto.enabled with
  | true =>
    refine ⟨_, ?_, Engine.setRaw_puts now ttl room⟩
    simp [Engine.setRaw, room]
  | false =>
    have stored : e.setFromBuffer P now (key ++ value) key.length ttl =
        ((e.put key value (expiry now ttl)).register key ttl, none) := by
      simp [Engine.setFromBuffer, on, room]
    exact ⟨(e.put key value (expiry now ttl)).register key ttl, by simp [stored],
      ⟨by simp, by simp, by simp, by simp⟩⟩

end

/-- What becomes of one entry: it has expired, finds no room, or is put in. -/
inductive Restored (now : Time) (e : Engine) (key : Bytes) (item : Item) :
    Engine × Option Error → Prop where
  | expired (gone : Update.survives now item.expiration = false) :
      Restored now e key item (e, none)
  | full {outcome : Engine × Option Error}
      (noRoom : e.full (key.length + item.value.length) = true) (failed : outcome.2 ≠ none) :
      Restored now e key item outcome
  | put {e' : Engine} (alive : Update.survives now item.expiration = true)
      (room : e.full (key.length + item.value.length) = false)
      (puts : e.Puts key item.value item.expiration e') : Restored now e key item (e', none)

theorem restoreEntry_restored (P : Primitives) (now : Time) (e : Engine) {key : Bytes} {item : Item}
    (dated : (LogCall.write key item.value item.expiration).dated = true) :
    Restored now e key item (restoreEntry P now e (snapshotRecord ⟨key, item⟩).decoded) := by
  obtain ⟨value, expiration⟩ := item
  simp only [restoreEntry, snapshotRecord, Record.set, Record.decoded]
  have entered {ttl : Duration} (alive : Update.survives now expiration = true)
      (instant : expiry now ttl = expiration) :
      Restored now e key ⟨value, expiration⟩
        (restoreValue P now e ⟨key ++ value, key.length, ttlNano expiration⟩ ttl) := by
    cases room : e.full (key.length + value.length) with
    | true =>
      rw [restoreValue_full _ ttl room]
      exact .full room (Option.some_ne_none _)
    | false =>
      obtain ⟨e', stored, puts⟩ := restoreValue_room (P := P) (ttlNano expiration) ttl room
      rw [instant] at puts
      rw [stored]
      exact .put alive room puts
  rcases ttlNano_cases dated now with forever | ⟨-, finite, ⟨gone, past⟩ | ⟨alive, ahead, instant⟩⟩
  · simp only at forever
    subst forever
    simpa [ttlNano] using entered rfl rfl
  · simp only [ne_eq, finite, not_false_eq_true, past, ↓reduceIte]
    exact .expired gone
  · simp only [ne_eq, finite, not_false_eq_true, ahead, ↓reduceIte]
    exact entered alive instant

def surviving (now : Time) (entries : List (Sigma fun _ : Bytes => Item)) :
    List (Sigma fun _ : Bytes => Item) :=
  entries.filter fun entry => Update.survives now entry.2.expiration

section
variable {P : Primitives} {now : Time} {e : Engine}

def restoreEntries (P : Primitives) (now : Time) (e : Engine)
    (entries : List (Sigma fun _ : Bytes => Item)) : Engine × Option Error :=
  foldUntil (fun e r => restoreEntry P now e (Record.decoded r)) e (entries.map snapshotRecord)

theorem Engine.Puts.fresh {key : Bytes} {item : Item} {e' : Engine}
    (puts : e.Puts key item.value item.expiration e') (fresh : key ∉ e.items.entries.keys) :
    e'.items.entries = ⟨key, item⟩ :: e.items.entries := by
  rw [puts.items]
  exact AList.entries_insert_of_notMem fresh

theorem restore_entries {entries : List (Sigma fun _ : Bytes => Item)} {e' : Engine}
    (dated : ∀ entry ∈ entries,
      (LogCall.write entry.1 entry.2.value entry.2.expiration).dated = true)
    (distinct : (entries ++ e.items.entries).NodupKeys) (accounted : e.Accounted)
    (ok : restoreEntries P now e entries = (e', none)) :
    e'.items.entries = (surviving now entries).reverse ++ e.items.entries ∧ e'.Accounted ∧
      e'.crypto = e.crypto ∧ e'.maxBytes = e.maxBytes := by
  induction entries generalizing e with
  | nil =>
    cases ok
    exact ⟨rfl, accounted, rfl, rfl⟩
  | cons entry entries ih =>
    obtain ⟨key, item⟩ := entry
    obtain ⟨first, later⟩ := List.forall_mem_cons.mp dated
    rw [List.cons_append, List.nodupKeys_cons] at distinct
    have restored := @restoreEntry_restored P now e key item first
    simp only [restoreEntries, List.map_cons, foldUntil] at ok
    generalize restoreEntry P now e (snapshotRecord ⟨key, item⟩).decoded = outcome at restored ok
    cases restored with
    | expired gone =>
      obtain ⟨items, same⟩ := ih later distinct.2 accounted ok
      exact ⟨by simpa [surviving, gone] using items, same⟩
    | full noRoom failed =>
      obtain ⟨e₁, _ | err⟩ := outcome
      · exact absurd rfl failed
      · cases ok
    | put alive room puts =>
      rename_i e₁
      have fresh : key ∉ e.items.entries.keys := by
        intro mem
        apply distinct.1
        rw [List.keys, List.map_append]
        exact List.mem_append_right _ mem
      have front := puts.fresh fresh
      have distinct₁ : (entries ++ e₁.items.entries).NodupKeys := by
        rw [front, List.nodupKeys_middle, List.nodupKeys_cons]
        exact distinct
      obtain ⟨items, accounted', crypto, ceiling⟩ :=
        ih later distinct₁ (puts.accounted accounted room) ok
      refine ⟨?_, accounted', crypto.trans puts.crypto, ceiling.trans puts.maxBytes⟩
      rw [items, front]
      simp [surviving, alive]

theorem restore_room (P : Primitives) (now : Time) {entries : List (Sigma fun _ : Bytes => Item)}
    (dated : ∀ entry ∈ entries,
      (LogCall.write entry.1 entry.2.value entry.2.expiration).dated = true)
    (accounted : e.Accounted)
    (room : e.maxBytes = 0 ∨ e.allocatedBytes + (entries.map Engine.entrySize).sum ≤ e.maxBytes) :
    (restoreEntries P now e entries).2 = none := by
  induction entries generalizing e with
  | nil => rfl
  | cons entry entries ih =>
    obtain ⟨key, item⟩ := entry
    obtain ⟨first, later⟩ := List.forall_mem_cons.mp dated
    rw [List.map_cons, List.sum_cons, Engine.entrySize] at room
    simp only at room
    have restored := @restoreEntry_restored P now e key item first
    simp only [restoreEntries, List.map_cons, foldUntil]
    generalize restoreEntry P now e (snapshotRecord ⟨key, item⟩).decoded = outcome at restored ⊢
    cases restored with
    | expired gone => exact ih later accounted (by omega)
    | full noRoom failed =>
      simp only [Engine.full, Bool.and_eq_true, decide_eq_true_eq] at noRoom
      omega
    | put alive free puts =>
      apply ih later (puts.accounted accounted free)
      have split := e.ledger.total_erase key
      rw [← accounted.allocated] at split
      rw [puts.maxBytes, puts.allocatedBytes, Engine.put_allocatedBytes accounted]
      omega

end

theorem stored_fits {P : Primitives} (law : P.Lawful) {crypto : CryptoEngine} {key value : Bytes}
    {expiration : Option Time}
    (accepted : crypto.walMode.accepts (.write key value expiration) = true) (draw : Nat) :
    (snapshotRecord ⟨key, ⟨crypto.encryptInPlace P draw value, expiration⟩⟩).Fits := by
  simp only [WalMode.accepts, Bool.and_eq_true, decide_eq_true_eq] at accepted
  obtain ⟨⟨small, short⟩, room⟩ := accepted
  have range := (LogCall.write key (crypto.encryptInPlace P draw value) expiration).record_ttl_range
  refine ⟨small, ?_, range.1, range.2⟩
  change (crypto.encryptInPlace P draw value).length ≤ maxUint32
  rw [crypto.encryptInPlace_length law]
  cases crypto with
  | passThrough => exact short
  | chacha k =>
    simp only [CryptoEngine.walMode, WalMode.roomFor, decide_eq_true_eq, sealedLen,
      Record.bytes_length, LogCall.record, Record.set] at room
    simp only [CryptoEngine.storedSize, CryptoEngine.enabled, ↓reduceIte]
    omega

theorem CryptoEngine.keyFingerprint_length {P : Primitives} (law : P.Lawful)
    (crypto : CryptoEngine) : (crypto.keyFingerprint P).length = 16 := by
  cases crypto with
  | passThrough => rfl
  | chacha key => simp [keyFingerprint, fingerprintBytes, law.sum256_length]

namespace Storage

/-- The snapshot file holds `entries`, under the fingerprint of `crypto`. -/
structure Snaps (P : Primitives) (s : Storage) (crypto : CryptoEngine)
    (entries : List (Sigma fun _ : Bytes => Item)) : Prop where
  file : ∃ createdAt keyCount, s.disk.snap = some (snapshotFile P createdAt
    (crypto.keyFingerprint P) keyCount ((entries.map snapshotRecord).flatMap Record.bytes))
  fits : ∀ entry ∈ entries, (snapshotRecord entry).Fits

section
variable {P : Primitives} {s : Storage} {crypto : CryptoEngine} {now : Time} {e : Engine}
  {entries : List (Sigma fun _ : Bytes => Item)}

theorem fingerprint_of_mode {h : ShardHandle} (handle : s.handle = some h)
    (mode : h.mode = crypto.walMode) : s.fingerprint P = crypto.keyFingerprint P := by
  simp only [fingerprint, handle, Option.bind_some, mode]
  cases crypto <;> rfl

theorem snapshotExists_file (P : Primitives) (createdAt : Time) (fp : Bytes) (keyCount : Nat)
    (body : Bytes) : snapshotExists (some (snapshotFile P createdAt fp keyCount body)) = true := by
  simp [snapshotExists, snapshotFile, buildSnapshotHeader, snapMagic, readFull]

theorem dumpSnapshot_snaps {h : ShardHandle} (handle : s.handle = some h)
    (mode : h.mode = crypto.walMode) (order : MapOrder) (fork : Bool)
    (fits : ∀ entry ∈ e.forEach now order, (snapshotRecord entry).Fits) :
    (s.dumpSnapshot P now order fork e).2 = none ∧
      (s.dumpSnapshot P now order fork e).1.Snaps P crypto (e.forEach now order) := by
  have dumped := snapshotForkDump_eq P now order fork e (s.fingerprint P) fits
  rw [fingerprint_of_mode handle mode] at dumped
  simp only [dumpSnapshot, fingerprint_of_mode handle mode, dumped]
  exact ⟨trivial, ⟨now, (e.forEach now order).length, rfl⟩, fits⟩

theorem Open.snapshot_snaps {rs : List LogEntry} {tail : Bytes}
    (opened : s.Open P crypto.walMode rs tail) (order : MapOrder) (fork : Bool)
    (fits : ∀ entry ∈ e.forEach now order, (snapshotRecord entry).Fits) :
    (s.snapshot P now order fork e).2 = none ∧
      (s.snapshot P now order fork e).1.Snaps P crypto (e.forEach now order) := by
  obtain ⟨enabled, -, h, mode, logs⟩ := opened
  obtain ⟨ok, snaps⟩ := dumpSnapshot_snaps logs.handle mode order fork fits
  obtain ⟨snap, dumped⟩ := dumpSnapshot_frame P now order fork s e
  have on : (!s.enabled) = false := by simp [enabled]
  rcases ran : s.dumpSnapshot P now order fork e with ⟨s', err⟩
  rw [ran] at ok snaps dumped
  subst ok dumped
  simp only [Storage.snapshot, on, ran, Bool.false_eq_true, ↓reduceIte]
  refine ⟨finishSnapshot_ok logs.handle, ?_, snaps.fits⟩
  rw [finishSnapshot_snap]
  exact snaps.file

theorem Snaps.load_eq (law : P.Lawful) (snaps : s.Snaps P crypto entries) (now : Time) (e : Engine)
    {h : ShardHandle} (handle : s.handle = some h) (mode : h.mode = crypto.walMode) :
    s.loadSnapshot P now e = ((restoreEntries P now e entries).1,
      (restoreEntries P now e entries).2.map (.loadSnapshot s.shardID)) := by
  obtain ⟨createdAt, keyCount, file⟩ := snaps.file
  have fits := snapshotRecords_fit snaps.fits
  simp only [loadSnapshot, file, snapshotExists_file, ↓reduceIte, Option.getD_some,
    fingerprint_of_mode handle mode]
  rw [snapshotRead_file P now createdAt e (crypto.keyFingerprint_length law) fits keyCount]
  rfl

end

end Storage

end Tellstone
