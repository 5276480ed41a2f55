import Tellstone.Persistence.Replay

/-! One view of both log formats: a magic, then one frame per record. Appends
add a frame; replay folds over the whole frames and drops a cut one. -/
namespace Tellstone
open ByteStream Framing

namespace WalMode

def magic : WalMode → Bytes
  | .encrypted _ => walMagic
  | _ => []

def frame (P : Primitives) (shardID : Nat) : WalMode → LogEntry → Bytes
  | .encrypted key, r => r.bytes P key shardID
  | _, r => r.record.bytes

def Fits : WalMode → LogEntry → Prop
  | .encrypted _, r => r.Fits
  | _, r => r.record.Fits

def frameSize : WalMode → Record → Nat
  | .encrypted _, r => 4 + sealedLen r
  | _, r => r.bytes.length

def writable : WalMode → Bool
  | .migrating _ => false
  | _ => true

def roomFor : WalMode → Record → Bool
  | .encrypted _, r => decide (sealedLen r ≤ maxUint32)
  | _, _ => true

def nextCtr : WalMode → UInt64 → UInt64
  | .encrypted _, ctr => ctr + 1
  | _, ctr => ctr

def sealCalls (shardID : Nat) (ctr : UInt64) (r : Record) : WalMode → List SealCall
  | .encrypted key => [⟨key, counterNonce ctr shardID, r.bytes⟩]
  | _ => []

theorem frameSize_pos (mode : WalMode) (r : Record) : 0 < mode.frameSize r := by
  cases mode <;> simp only [frameSize, sealedLen, Record.bytes_length] <;> omega

theorem frame_length {P : Primitives} (law : P.Lawful) (shardID : Nat) (mode : WalMode)
    (r : LogEntry) : (mode.frame P shardID r).length = mode.frameSize r.record := by
  cases mode with
  | encrypted key => exact r.bytes_length law key shardID
  | plaintext => rfl
  | migrating key => rfl

theorem Fits.record {mode : WalMode} {r : LogEntry} (h : mode.Fits r) : r.record.Fits := by
  cases mode with
  | encrypted key => exact LogEntry.Fits.record h
  | plaintext => exact h
  | migrating key => exact h

end WalMode

inductive LogCall where
  | write (key value : Bytes) (expiration : Option Time)
  | delete (key : Bytes)
  deriving DecidableEq, Repr

def LogCall.record : LogCall → Record
  | .write key value expiration => .set key value expiration
  | .delete key => .tombstone key

theorem unixNano_range (t : Time) : -2 ^ 63 ≤ unixNano t ∧ unixNano t < 2 ^ 63 :=
  int64_range (Nat.mod_lt t (by omega))

theorem LogCall.record_ttl_range (c : LogCall) :
    -2 ^ 63 ≤ c.record.ttlNano ∧ c.record.ttlNano < 2 ^ 63 := by
  cases c with
  | write key value expiration =>
    cases expiration with
    | none => exact ⟨by simp [record, Record.set, ttlNano], by simp [record, Record.set, ttlNano]⟩
    | some t => simpa only [record, Record.set, ttlNano] using unixNano_range t
  | delete key => exact ⟨by simp [record, Record.tombstone, tombstoneTTL],
      by simp [record, Record.tombstone, tombstoneTTL]⟩

def WalMode.accepts (mode : WalMode) (c : LogCall) : Bool :=
  decide (c.record.key.length ≤ maxUint32) && decide (c.record.value.length ≤ maxUint32) &&
    mode.roomFor c.record

theorem WalMode.accepts_fits {mode : WalMode} {c : LogCall} (h : mode.accepts c = true)
    (ctr : UInt64) : mode.Fits ⟨ctr, c.record⟩ := by
  simp only [accepts, Bool.and_eq_true, decide_eq_true_eq] at h
  obtain ⟨⟨key, value⟩, room⟩ := h
  have fits : c.record.Fits := ⟨key, value, c.record_ttl_range.1, c.record_ttl_range.2⟩
  cases mode with
  | encrypted k => exact ⟨fits, by simpa [roomFor] using room⟩
  | plaintext => exact fits
  | migrating k => exact fits

theorem WalMode.Fits.accepts {mode : WalMode} {ctr : UInt64} {c : LogCall}
    (h : mode.Fits ⟨ctr, c.record⟩) : mode.accepts c = true := by
  have record := h.record
  simp only [WalMode.accepts, Bool.and_eq_true, decide_eq_true_eq]
  refine ⟨⟨record.key, record.value⟩, ?_⟩
  cases mode with
  | encrypted k => simpa [roomFor] using LogEntry.Fits.size h
  | plaintext => rfl
  | migrating k => rfl

theorem WalMode.accepts_delete {mode : WalMode} {key value : Bytes} {expiration : Option Time}
    (h : mode.accepts (.write key value expiration) = true) : mode.accepts (.delete key) = true := by
  simp only [accepts, Bool.and_eq_true, decide_eq_true_eq] at h ⊢
  obtain ⟨⟨small, -⟩, room⟩ := h
  refine ⟨⟨small, Nat.zero_le _⟩, ?_⟩
  cases mode with
  | encrypted k =>
    simp only [roomFor, decide_eq_true_eq, sealedLen, Record.bytes_length] at room ⊢
    simp only [LogCall.record, Record.set, Record.tombstone, List.length_nil] at room ⊢
    omega
  | plaintext => rfl
  | migrating k => rfl

def SealedFile.counted (f : SealedFile) (r : Record) (written : Bytes) : SealedFile :=
  { f with
    bytes := f.bytes ++ written
    nonceCtr := f.nonceCtr + 1
    sealed := f.sealed ++ [⟨f.key, counterNonce f.nonceCtr f.shardID, r.bytes⟩] }

theorem appendRecordEncrypted_room {P : Primitives} (law : P.Lawful) (fault : Fault)
    (f : SealedFile) {r : Record} (room : sealedLen r ≤ maxUint32) :
    appendRecordEncrypted P fault f r =
      (f.counted r (fault.cut (LogEntry.bytes P f.key f.shardID ⟨f.nonceCtr, r⟩)),
        if fault.isNone then none else some .io) := by
  rw [sealedLen] at room
  simp [appendRecordEncrypted, CryptoEngine.sealWithCounter, law.seal_length,
    Nat.not_lt.mpr room, writeSync_eq, SealedFile.counted, LogEntry.bytes, sealedLen]

theorem appendRecordEncrypted_noRoom {P : Primitives} (law : P.Lawful) (fault : Fault)
    (f : SealedFile) {r : Record} (large : maxUint32 < sealedLen r) :
    appendRecordEncrypted P fault f r = (f.counted r [], some (.recordTooLarge (sealedLen r))) := by
  rw [sealedLen] at large
  simp [appendRecordEncrypted, CryptoEngine.sealWithCounter, law.seal_length, large,
    SealedFile.counted, sealedLen]

def ShardHandle.next (h : ShardHandle) : ShardHandle :=
  { h with nonceCtr := h.mode.nextCtr h.nonceCtr }

@[simp] theorem ShardHandle.next_mode (h : ShardHandle) : h.next.mode = h.mode := rfl

namespace Storage

def log (P : Primitives) (fault : Fault) (s : Storage) : LogCall → Storage × Option Error
  | .write key value expiration => s.write P fault key value expiration
  | .delete key => s.delete P fault key

def appended (s : Storage) (h : ShardHandle) (r : Record) (written : Bytes) : Storage :=
  { s.setWal (s.wal ++ written) with
    handle := some h.next
    sealed := s.sealed ++ h.mode.sealCalls s.shardID h.nonceCtr r }

section
variable {P : Primitives} {s : Storage} {h : ShardHandle}

theorem appendRecord_room (law : P.Lawful) (fault : Fault) {r : Record}
    (handle : s.handle = some h) (writable : h.mode.writable = true)
    (room : h.mode.roomFor r = true) :
    s.appendRecord P fault r =
      (s.appended h r (fault.cut (h.mode.frame P s.shardID ⟨h.nonceCtr, r⟩)),
        if fault.isNone then none else some .io) := by
  rcases h with ⟨mode, ctr⟩
  cases mode with
  | migrating key => simp [WalMode.writable] at writable
  | plaintext =>
    simp [appendRecord, handle, writeSync_eq, appended, ShardHandle.next, WalMode.nextCtr,
      WalMode.sealCalls, WalMode.frame, Record.bytes, setWal]
  | encrypted key =>
    have size : sealedLen r ≤ maxUint32 := by simpa [WalMode.roomFor] using room
    simp [appendRecord, handle, appendRecordEncrypted_room law, size, SealedFile.counted, appended,
      ShardHandle.next, WalMode.nextCtr, WalMode.sealCalls, WalMode.frame]

theorem appendRecord_noRoom (law : P.Lawful) (fault : Fault) {r : Record}
    (handle : s.handle = some h) (room : h.mode.roomFor r = false) :
    s.appendRecord P fault r = (s.appended h r [], some (.recordTooLarge (sealedLen r))) := by
  rcases h with ⟨mode, ctr⟩
  cases mode with
  | migrating key => simp [WalMode.roomFor] at room
  | plaintext => simp [WalMode.roomFor] at room
  | encrypted key =>
    have size : maxUint32 < sealedLen r := by simpa [WalMode.roomFor] using room
    simp [appendRecord, handle, appendRecordEncrypted_noRoom law, size, SealedFile.counted,
      appended, ShardHandle.next, WalMode.nextCtr, WalMode.sealCalls]

theorem log_accepted (law : P.Lawful) (fault : Fault) {c : LogCall} (enabled : s.enabled = true)
    (handle : s.handle = some h) (writable : h.mode.writable = true)
    (accepted : h.mode.accepts c = true) :
    s.log P fault c =
      (s.appended h c.record (fault.cut (h.mode.frame P s.shardID ⟨h.nonceCtr, c.record⟩)),
        if fault.isNone then none else some .io) := by
  simp only [WalMode.accepts, Bool.and_eq_true, decide_eq_true_eq] at accepted
  obtain ⟨⟨key, value⟩, room⟩ := accepted
  have append := appendRecord_room law fault handle writable room
  cases c with
  | write k v exp =>
    simp only [LogCall.record, Record.set] at key value
    rw [log, write, if_neg (by simp [enabled]), if_neg (by omega), if_neg (by omega)]
    exact append
  | delete k =>
    simp only [LogCall.record, Record.tombstone] at key
    rw [log, delete, if_neg (by simp [enabled]), if_neg (by omega)]
    exact append

theorem log_refused (law : P.Lawful) (fault : Fault) {c : LogCall} (enabled : s.enabled = true)
    (handle : s.handle = some h) (refused : h.mode.accepts c = false) :
    (s.log P fault c).2 ≠ none ∧
      ((s.log P fault c).1 = s ∨ (s.log P fault c).1 = s.appended h c.record []) := by
  simp only [WalMode.accepts, Bool.and_eq_false_iff, decide_eq_false_iff_not] at refused
  cases c with
  | write k v exp =>
    simp only [log, write, enabled, Bool.not_true, Bool.false_eq_true, ↓reduceIte]
    split
    · exact ⟨by simp, Or.inl rfl⟩
    split
    · exact ⟨by simp, Or.inl rfl⟩
    · rcases refused with (key | value) | room
      · simp only [LogCall.record, Record.set] at key
        omega
      · simp only [LogCall.record, Record.set] at value
        omega
      · simp only [LogCall.record] at room ⊢
        rw [appendRecord_noRoom law fault handle room]
        exact ⟨by simp, Or.inr rfl⟩
  | delete k =>
    simp only [log, delete, enabled, Bool.not_true, Bool.false_eq_true, ↓reduceIte]
    split
    · exact ⟨by simp, Or.inl rfl⟩
    · rcases refused with (key | value) | room
      · simp only [LogCall.record, Record.tombstone] at key
        omega
      · simp [LogCall.record, Record.tombstone] at value
      · simp only [LogCall.record] at room ⊢
        rw [appendRecord_noRoom law fault handle room]
        exact ⟨by simp, Or.inr rfl⟩

theorem log_reaches (P : Primitives) (fault : Fault) (s : Storage) (c : LogCall) :
    (s.log P fault c).1 = s ∨ s.log P fault c = s.appendRecord P fault c.record := by
  cases c with
  | write key value expiration =>
    simp only [log, write]
    split
    · exact Or.inl rfl
    split
    · exact Or.inl rfl
    split
    · exact Or.inl rfl
    · exact Or.inr rfl
  | delete key =>
    simp only [log, delete]
    split
    · exact Or.inl rfl
    split
    · exact Or.inl rfl
    · exact Or.inr rfl

theorem log_frame (P : Primitives) (fault : Fault) (s : Storage) (c : LogCall) :
    ∃ wal, (s.log P fault c).1.disk = { s.disk with wal := wal } ∧
      (s.log P fault c).1.enabled = s.enabled ∧ (s.log P fault c).1.shardID = s.shardID := by
  rcases log_reaches P fault s c with kept | appends
  · rw [kept]
    exact ⟨s.disk.wal, rfl, rfl, rfl⟩
  · simp only [appends, appendRecord]
    split
    · exact ⟨s.disk.wal, rfl, rfl, rfl⟩
    · split
      · exact ⟨s.disk.wal, rfl, rfl, rfl⟩
      · exact ⟨_, rfl, rfl, rfl⟩
      · exact ⟨_, rfl, rfl, rfl⟩

theorem log_blocked (fault : Fault) {c : LogCall} (enabled : s.enabled = true)
    (blocked : maxUint32 < c.record.key.length ∨ maxUint32 < c.record.value.length ∨
      s.handle = none ∨ ∃ key ctr, s.handle = some ⟨.migrating key, ctr⟩) :
    (s.log P fault c).1 = s := by
  have unopened (r : Record)
      (why : s.handle = none ∨ ∃ key ctr, s.handle = some ⟨.migrating key, ctr⟩) :
      (s.appendRecord P fault r).1 = s := by
    rcases why with handle | ⟨key, ctr, handle⟩ <;> simp [appendRecord, handle]
  cases c with
  | write key value exp =>
    simp only [LogCall.record, Record.set] at blocked
    simp only [log, write, enabled, Bool.not_true, Bool.false_eq_true, ↓reduceIte]
    split
    · rfl
    rename_i keyFits
    split
    · rfl
    rename_i valueFits
    exact unopened _ ((blocked.resolve_left keyFits).resolve_left valueFits)
  | delete key =>
    simp only [LogCall.record, Record.tombstone, List.length_nil] at blocked
    simp only [log, delete, enabled, Bool.not_true, Bool.false_eq_true, ↓reduceIte]
    split
    · rfl
    rename_i keyFits
    exact unopened _ ((blocked.resolve_left keyFits).resolve_left (Nat.not_lt_zero _))

end

end Storage

/-- One record of a replay. A tombstone or an expired record is only counted as skipped. -/
def replayRecord (P : Primitives) (now : Time) (e : Engine) (r : Record) :
    Engine × Option Error :=
  let (e, err) := applyRecord P now e r.header r.key r.value
  (e, if err = some .recordExpired then none else err)

def replayRecords (P : Primitives) (now : Time) (e : Engine) (rs : List Record) :
    Engine × Option Error :=
  foldUntil (replayRecord P now) e rs

section
variable (P : Primitives) (now : Time) (g : Progress)

theorem Progress.eat_engine (r : Record) :
    ((g.eat P now r).1.engine, (g.eat P now r).2) = replayRecord P now g.engine r := by
  simp only [Progress.eat, Progress.apply, replayRecord]
  rcases applyRecord P now g.engine r.header r.key r.value with ⟨e, err⟩
  split <;> rfl

theorem Progress.eat_applied {r : Record} (fits : r.Fits) :
    (g.eat P now r).1.applied = g.applied ++ [r] := by
  simp only [Progress.eat, Progress.apply, headerTTL_header fits]
  rcases applyRecord P now g.engine r.header r.key r.value with ⟨e, err⟩
  split <;> rfl

theorem Progress.eat_maxNonce (r : Record) :
    (g.eat P now r).1.maxNonce = g.maxNonce := by
  simp only [Progress.eat, Progress.apply]
  rcases applyRecord P now g.engine r.header r.key r.value with ⟨e, err⟩
  split <;> rfl

end

theorem applyRecord_raw_of_ne (P : Primitives) (now : Time) (e : Engine) (header : Bytes)
    {key k : Bytes} (value : Bytes) (other : k ≠ key) :
    (applyRecord P now e header key value).1.raw k = e.raw k := by
  simp only [applyRecord]
  split
  · exact e.delete_raw_of_ne now key other
  · split
    · split
      · rfl
      · exact e.set_raw_of_ne P now value _ other
    · exact e.set_raw_of_ne P now value _ other

theorem applyRecord_unbounded (P : Primitives) (now : Time) {e : Engine} (h : e.maxBytes = 0)
    (header key value : Bytes) :
    ((applyRecord P now e header key value).2 = none ∨
        (applyRecord P now e header key value).2 = some .recordExpired) ∧
      (applyRecord P now e header key value).1.maxBytes = 0 := by
  have room (ttl : Duration) : (e.set P now key value ttl).2 = none := by
    rw [Engine.set_err, Engine.full_eq_false_of_unbounded h]
    rfl
  simp only [applyRecord]
  split
  · exact ⟨Or.inr rfl, by simp [h]⟩
  · split
    · split
      · exact ⟨Or.inr rfl, h⟩
      · exact ⟨Or.inl (room _), by simp [h]⟩
    · exact ⟨Or.inl (room _), by simp [h]⟩

theorem replayRecords_unbounded (P : Primitives) (now : Time) {e : Engine} (h : e.maxBytes = 0)
    (rs : List Record) :
    replayRecords P now e rs =
      (rs.foldl (fun e r => (applyRecord P now e r.header r.key r.value).1) e, none) := by
  refine (foldUntil_total (fun e => e.maxBytes = 0) ?_ e rs h).1
  intro e r unbounded
  obtain ⟨applied, kept⟩ := applyRecord_unbounded P now unbounded r.header r.key r.value
  refine ⟨?_, kept⟩
  rcases applied with none | skipped
  · simp [replayRecord, none]
  · simp [replayRecord, skipped]

/-! The loop of either format: one turn, what it does with an entry, and the
highest counter it has seen. -/

def WalMode.turn (P : Primitives) (now : Time) (fileSize : Int) :
    WalMode → Replay → Turn Replay Error
  | .encrypted key => encryptedTurn P now key fileSize
  | _ => plaintextTurn P now fileSize

def WalMode.eat (P : Primitives) (now : Time) : WalMode → Progress → LogEntry →
    Progress × Option Error
  | .encrypted _, g, r => g.eatSealed P now r
  | _, g, r => g.eat P now r.record

def WalMode.raise : WalMode → UInt64 → LogEntry → UInt64
  | .encrypted _, high, r => if r.ctr > high then r.ctr else high
  | _, high, _ => high

section
variable {P : Primitives} (law : P.Lawful) (now : Time) (mode : WalMode) (shardID : Nat)
  (fileSize : Int)

theorem WalMode.turn_shrinks : Shrinks (mode.turn P now fileSize) (fun r => r.rest.length) := by
  cases mode with
  | encrypted key => exact encryptedTurn_shrinks P now key fileSize
  | plaintext => exact plaintextTurn_shrinks P now fileSize
  | migrating key => exact plaintextTurn_shrinks P now fileSize

include law

theorem WalMode.turn_eats :
    Eats (mode.turn P now fileSize) (Replay.at fileSize) (mode.frame P shardID) mode.Fits
      (mode.eat P now) := by
  cases mode with
  | encrypted key => exact encryptedTurn_eats law now key shardID fileSize
  | plaintext => exact fun g r => plaintextTurn_eats P now fileSize g r.record
  | migrating key => exact fun g r => plaintextTurn_eats P now fileSize g r.record

theorem WalMode.turn_stops {tail : Bytes} (cut : Cut (mode.frame P shardID) mode.Fits tail)
    (g : Progress) :
    mode.turn P now fileSize (Replay.at fileSize g tail) = .stop (Replay.at fileSize g tail) := by
  have plain (cut : Cut (fun r : LogEntry => r.record.bytes) (fun r => r.record.Fits) tail) :
      plaintextTurn P now fileSize (Replay.at fileSize g tail) =
        .stop (Replay.at fileSize g tail) := by
    refine plaintextTurn_stops P now fileSize ?_ g
    exact cut.imp id fun ⟨r, fits, pre, less⟩ => ⟨r.record, fits, pre, less⟩
  cases mode with
  | encrypted key => exact encryptedTurn_stops law now key shardID fileSize cut g
  | plaintext => exact plain cut
  | migrating key => exact plain cut

end

/-- An accumulator that took in `rs` on the way from `g` and reached engine `e`. -/
structure Progress.Took (mode : WalMode) (g : Progress) (rs : List LogEntry) (e : Engine)
    (g' : Progress) : Prop where
  engine : g'.engine = e
  applied : g'.applied = g.applied ++ rs.map (·.record)
  maxNonce : g'.maxNonce = rs.foldl mode.raise g.maxNonce

theorem Progress.Took.cons {mode : WalMode} {g g' g'' : Progress} {r : LogEntry}
    {rs : List LogEntry} {e e' : Engine} (first : g.Took mode [r] e g')
    (rest : g'.Took mode rs e' g'') : g.Took mode (r :: rs) e' g'' where
  engine := rest.engine
  applied := by simp [rest.applied, first.applied]
  maxNonce := by simp [rest.maxNonce, first.maxNonce]

theorem WalMode.eat_took (P : Primitives) (now : Time) {mode : WalMode} (g : Progress)
    {r : LogEntry} (fits : mode.Fits r) :
    (mode.eat P now g r).2 = (replayRecord P now g.engine r.record).2 ∧
      g.Took mode [r] (replayRecord P now g.engine r.record).1 (mode.eat P now g r).1 := by
  have spec (high : UInt64) :
      ({ g with maxNonce := high }.eat P now r.record).2 =
          (replayRecord P now g.engine r.record).2 ∧
        ({ g with maxNonce := high }.eat P now r.record).1.engine =
          (replayRecord P now g.engine r.record).1 ∧
        ({ g with maxNonce := high }.eat P now r.record).1.applied = g.applied ++ [r.record] ∧
        ({ g with maxNonce := high }.eat P now r.record).1.maxNonce = high := by
    have engine := Prod.mk.inj (Progress.eat_engine P now { g with maxNonce := high } r.record)
    exact ⟨engine.2, engine.1, Progress.eat_applied P now _ fits.record,
      Progress.eat_maxNonce P now _ _⟩
  cases mode with
  | encrypted key =>
    obtain ⟨err, engine, applied, high⟩ := spec (if r.ctr > g.maxNonce then r.ctr else g.maxNonce)
    exact ⟨err, engine, applied, high⟩
  | plaintext =>
    obtain ⟨err, engine, applied, high⟩ := spec g.maxNonce
    exact ⟨err, engine, applied, high⟩
  | migrating key =>
    obtain ⟨err, engine, applied, high⟩ := spec g.maxNonce
    exact ⟨err, engine, applied, high⟩

theorem WalMode.foldUntil_eat (P : Primitives) (now : Time) {mode : WalMode} (rs : List LogEntry)
    (fits : ∀ r ∈ rs, mode.Fits r) (g : Progress) :
    match replayRecords P now g.engine (rs.map (·.record)) with
    | (e, none) => ∃ g', foldUntil (mode.eat P now) g rs = (g', none) ∧ g.Took mode rs e g'
    | (e, some err) => ∃ g', foldUntil (mode.eat P now) g rs = (g', some err) ∧ g'.engine = e := by
  induction rs generalizing g with
  | nil => exact ⟨g, rfl, rfl, by simp, rfl⟩
  | cons r rs ih =>
    obtain ⟨err, took⟩ := WalMode.eat_took P now g (fits r List.mem_cons_self)
    have rest := ih (fun b hb => fits b (List.mem_cons_of_mem r hb)) (mode.eat P now g r).1
    rw [took.engine] at rest
    simp only [replayRecords, List.map_cons, foldUntil] at rest ⊢
    rcases ate : mode.eat P now g r with ⟨g', err'⟩
    rcases replayed : replayRecord P now g.engine r.record with ⟨e, err''⟩
    rw [ate, replayed] at took err rest
    cases err
    cases err' with
    | some failure => exact ⟨g', rfl, took.engine⟩
    | none =>
      simp only
      rcases folded : foldUntil (replayRecord P now) e (rs.map (·.record)) with ⟨e', _ | failure⟩
      · simp only [folded] at rest ⊢
        obtain ⟨g'', ran, more⟩ := rest
        exact ⟨g'', ran, took.cons more⟩
      · simpa only [folded] using rest

theorem WalMode.loop_replays {P : Primitives} (law : P.Lawful) (now : Time) (mode : WalMode)
    (shardID : Nat) (fileSize : Int) {rs : List LogEntry} (fits : ∀ r ∈ rs, mode.Fits r)
    {tail : Bytes} (cut : Cut (mode.frame P shardID) mode.Fits tail) (e : Engine) :
    let outcome := loop (mode.turn P now fileSize) (fun r => r.rest.length)
      (Replay.at fileSize (.start e) (rs.flatMap (mode.frame P shardID) ++ tail))
    match replayRecords P now e (rs.map (·.record)) with
    | (e', none) => ∃ g, outcome = (Replay.at fileSize g tail, none) ∧
        (Progress.start e).Took mode rs e' g
    | (e', some err) => ∃ g left, outcome = (Replay.at fileSize g left, some err) ∧
        g.engine = e' := by
  have folded := WalMode.foldUntil_eat P now rs fits (.start e)
  have looped := Framing.loop_log (mode.turn_shrinks now fileSize)
    (mode.turn_eats law now shardID fileSize) (mode.turn_stops law now shardID fileSize cut) rs fits
    (.start e)
  simp only [Progress.start] at folded looped ⊢
  rcases replayed : replayRecords P now e (rs.map (·.record)) with ⟨e', _ | err⟩
  · simp only [replayed] at folded ⊢
    obtain ⟨g, ate, took⟩ := folded
    simp only [ate] at looped
    exact ⟨g, looped, took⟩
  · simp only [replayed] at folded ⊢
    obtain ⟨g, ate, reached⟩ := folded
    simp only [ate] at looped
    obtain ⟨left, failed⟩ := looped
    exact ⟨g, left, failed, reached⟩

namespace Storage

/-- The file of an open shard: whole records, and `tail` behind them. -/
structure Logs (P : Primitives) (s : Storage) (h : ShardHandle) (rs : List LogEntry)
    (tail : Bytes) : Prop where
  handle : s.handle = some h
  wal : s.disk.wal = some (h.mode.magic ++ rs.flatMap (h.mode.frame P s.shardID) ++ tail)
  fits : ∀ r ∈ rs, h.mode.Fits r

/-- The counter a replay resumes from when `maxNonce` was the highest it read. -/
def resumeCtr (s : Storage) (maxNonce : UInt64) : UInt64 :=
  let walCtr := maxNonce + 1
  let sidecarCtr := readNonceSidecar s.disk.nonce
  if sidecarCtr > walCtr then sidecarCtr else walCtr

def resumed (s : Storage) (h : ShardHandle) (maxNonce : UInt64) : Storage :=
  match h.mode with
  | .encrypted _ =>
    { s with
      disk := writeNonceSidecar s.disk (s.resumeCtr maxNonce)
      handle := some { h with nonceCtr := s.resumeCtr maxNonce } }
  | _ => s

def recovered (P : Primitives) (s : Storage) (h : ShardHandle) (rs : List LogEntry) : Storage :=
  (s.resumed h (rs.foldl h.mode.raise 0)).setWal
    (h.mode.magic ++ rs.flatMap (h.mode.frame P s.shardID))

theorem finishReplay_of_tail {s : Storage} {kept tail : Bytes}
    (wal : s.disk.wal = some (kept ++ tail)) {fileSize validOffset : Int}
    (size : fileSize = (kept ++ tail).length) (valid : validOffset = fileSize - tail.length) :
    s.finishReplay fileSize validOffset = s.setWal kept := by
  have offset : validOffset = kept.length := by
    rw [valid, size, List.length_append]
    omega
  unfold finishReplay
  split
  · rw [offset, Int.toNat_natCast, Storage.wal, wal, Option.getD_some, List.take_left]
  · rename_i whole
    have empty : tail = [] := by
      rw [offset, size, List.length_append] at whole
      exact List.length_eq_zero_iff.mp (by omega)
    subst empty
    rw [setWal, ← List.append_nil kept, ← wal]

section
variable (s : Storage) (h : ShardHandle) (maxNonce : UInt64)

theorem resumed_wal : (s.resumed h maxNonce).disk.wal = s.disk.wal := by
  unfold resumed
  split <;> rfl

theorem resumed_enabled : (s.resumed h maxNonce).enabled = s.enabled := by
  unfold resumed
  split <;> rfl

theorem resumed_shardID : (s.resumed h maxNonce).shardID = s.shardID := by
  unfold resumed
  split <;> rfl

end

theorem replayWAL_eq {P : Primitives} {now : Time} {s : Storage} {h : ShardHandle} {e : Engine}
    (handle : s.handle = some h) :
    s.replayWAL P now e =
      let (r, err) := loop (h.mode.turn P now s.wal.length) (fun r => r.rest.length)
        ⟨.start e, s.wal.drop h.mode.magic.length, (s.wal.length : Int) - h.mode.magic.length,
          h.mode.magic.length⟩
      match err with
      | some err => ⟨s, r.engine, r.applied, some err⟩
      | none => ⟨(s.resumed h r.maxNonce).finishReplay s.wal.length r.validOffset, r.engine,
          r.applied, none⟩ := by
  rcases h with ⟨mode, ctr⟩
  cases mode with
  | encrypted key =>
    simp only [replayWAL, handle, replayWALEncrypted]
    rfl
  | plaintext =>
    simp only [replayWAL, handle, replayWALPlaintext, WalMode.turn, WalMode.magic, List.length_nil,
      List.drop_zero, Int.natCast_zero, Int.sub_zero]
    rfl
  | migrating key =>
    simp only [replayWAL, handle, replayWALPlaintext, WalMode.turn, WalMode.magic, List.length_nil,
      List.drop_zero, Int.natCast_zero, Int.sub_zero]
    rfl

theorem replayWAL_log {P : Primitives} (law : P.Lawful) {s : Storage} {h : ShardHandle}
    {rs : List LogEntry} {tail : Bytes} (logs : s.Logs P h rs tail)
    (cut : Cut (h.mode.frame P s.shardID) h.mode.Fits tail) (now : Time) (e : Engine) :
    match replayRecords P now e (rs.map (·.record)) with
    | (e', none) => s.replayWAL P now e = ⟨s.recovered P h rs, e', rs.map (·.record), none⟩
    | (e', some err) => ∃ applied, s.replayWAL P now e = ⟨s, e', applied, some err⟩ := by
  have looped := h.mode.loop_replays law now s.shardID s.wal.length logs.fits cut e
  have wal : s.wal = h.mode.magic ++ (rs.flatMap (h.mode.frame P s.shardID) ++ tail) := by
    rw [Storage.wal, logs.wal, Option.getD_some, List.append_assoc]
  have start : Replay.at s.wal.length (.start e) (rs.flatMap (h.mode.frame P s.shardID) ++ tail) =
      ⟨.start e, s.wal.drop h.mode.magic.length, (s.wal.length : Int) - h.mode.magic.length,
        h.mode.magic.length⟩ := by
    have length := congrArg List.length wal
    rw [List.length_append] at length
    rw [Replay.at, length, wal, List.drop_left]
    congr 1 <;> omega
  rw [start] at looped
  rw [replayWAL_eq logs.handle]
  rcases replayed : replayRecords P now e (rs.map (·.record)) with ⟨e', _ | err⟩
  · simp only [replayed] at looped ⊢
    obtain ⟨g, ran, took⟩ := looped
    have high : g.maxNonce = rs.foldl h.mode.raise 0 := took.maxNonce
    have applied : g.applied = rs.map (·.record) := took.applied
    have cutTail : (s.resumed h (rs.foldl h.mode.raise 0)).finishReplay s.wal.length
        (s.wal.length - tail.length) = s.recovered P h rs :=
      finishReplay_of_tail ((resumed_wal s h _).trans logs.wal) (by rw [wal, List.append_assoc]) rfl
    simp only [ran, Replay.at, high, cutTail, took.engine, applied]
  · simp only [replayed] at looped ⊢
    obtain ⟨g, left, failed, reached⟩ := looped
    exact ⟨g.applied, by simp only [failed, Replay.at, reached]⟩

section
variable {P : Primitives} {s : Storage} {h : ShardHandle} {rs : List LogEntry}

theorem Logs.wal_eq {tail : Bytes} (logs : s.Logs P h rs tail) :
    s.wal = h.mode.magic ++ rs.flatMap (h.mode.frame P s.shardID) ++ tail := by
  rw [Storage.wal, logs.wal, Option.getD_some]

theorem Logs.appended {tail : Bytes} (logs : s.Logs P h rs tail) (r : Record) (written : Bytes) :
    (s.appended h r written).Logs P h.next rs (tail ++ written) where
  handle := rfl
  wal := by
    simp [Storage.appended, setWal, logs.wal_eq]
  fits := logs.fits

theorem Logs.absorb {r : LogEntry} (fits : h.mode.Fits r)
    (logs : s.Logs P h rs (h.mode.frame P s.shardID r)) : s.Logs P h (rs ++ [r]) [] where
  handle := logs.handle
  wal := by
    rw [logs.wal]
    simp
  fits := by
    intro a mem
    rcases List.mem_append.mp mem with old | new
    · exact logs.fits a old
    · rw [List.mem_singleton.mp new]
      exact fits

theorem recovered_logs {tail : Bytes} (logs : s.Logs P h rs tail) :
    ∃ h', h'.mode = h.mode ∧ (s.recovered P h rs).Logs P h' rs [] := by
  rcases h with ⟨mode, ctr⟩
  cases mode with
  | encrypted key =>
    exact ⟨⟨.encrypted key, s.resumeCtr (rs.foldl (WalMode.raise (.encrypted key)) 0)⟩, rfl, rfl,
      by simp [recovered, resumed, setWal], logs.fits⟩
  | plaintext =>
    exact ⟨⟨.plaintext, ctr⟩, rfl, logs.handle, by simp [recovered, resumed, setWal], logs.fits⟩
  | migrating key =>
    exact ⟨⟨.migrating key, ctr⟩, rfl, logs.handle, by simp [recovered, resumed, setWal],
      logs.fits⟩

/-- An enabled storage whose shard takes appends, in whatever state its counter is. -/
structure Open (P : Primitives) (s : Storage) (mode : WalMode) (rs : List LogEntry)
    (tail : Bytes) : Prop where
  enabled : s.enabled = true
  writable : mode.writable = true
  logs : ∃ h, h.mode = mode ∧ s.Logs P h rs tail

theorem Open.wal_eq {mode : WalMode} {tail : Bytes} (opened : s.Open P mode rs tail) :
    s.wal = mode.magic ++ rs.flatMap (mode.frame P s.shardID) ++ tail := by
  obtain ⟨-, -, h, rfl, logs⟩ := opened
  exact logs.wal_eq

theorem Open.log {mode : WalMode} {tail : Bytes} (law : P.Lawful) (fault : Fault) (c : LogCall)
    (opened : s.Open P mode rs tail) :
    ∃ ctr written, (s.log P fault c).1.Open P mode rs (tail ++ written) ∧
      (s.log P fault c).1.shardID = s.shardID ∧
      (mode.accepts c = true ∧ written = fault.cut (mode.frame P s.shardID ⟨ctr, c.record⟩) ∧
          (s.log P fault c).2 = (if fault.isNone then none else some .io) ∨
        mode.accepts c = false ∧ written = [] ∧ (s.log P fault c).2 ≠ none) := by
  obtain ⟨enabled, writable, h, rfl, logs⟩ := opened
  cases accepted : h.mode.accepts c with
  | true =>
    rw [log_accepted law fault enabled logs.handle writable accepted]
    exact ⟨h.nonceCtr, _, ⟨enabled, writable, h.next, rfl, logs.appended _ _⟩, rfl,
      Or.inl ⟨rfl, rfl, rfl⟩⟩
  | false =>
    obtain ⟨refused, same | counted⟩ := log_refused law fault enabled logs.handle accepted
    · refine ⟨h.nonceCtr, [], ?_, by rw [same], Or.inr ⟨rfl, rfl, refused⟩⟩
      rw [same, List.append_nil]
      exact ⟨enabled, writable, h, rfl, logs⟩
    · refine ⟨h.nonceCtr, [], ?_, by rw [counted]; rfl, Or.inr ⟨rfl, rfl, refused⟩⟩
      rw [counted]
      exact ⟨enabled, writable, h.next, rfl, logs.appended _ _⟩

theorem Open.recovered {mode : WalMode} {tail : Bytes} (law : P.Lawful)
    (opened : s.Open P mode rs tail) (cut : Cut (mode.frame P s.shardID) mode.Fits tail)
    (now : Time) {e e' : Engine}
    (replayed : replayRecords P now e (rs.map (·.record)) = (e', none)) :
    ∃ s', s.replayWAL P now e = ⟨s', e', rs.map (·.record), none⟩ ∧ s'.Open P mode rs [] ∧
      s'.shardID = s.shardID := by
  obtain ⟨enabled, writable, h, rfl, logs⟩ := opened
  have spec := replayWAL_log law logs cut now e
  rw [replayed] at spec
  obtain ⟨h', same, kept⟩ := recovered_logs logs
  exact ⟨_, spec, ⟨(resumed_enabled s h _).trans enabled, writable, h', same, kept⟩,
    resumed_shardID s h _⟩

end

end Storage

end Tellstone
