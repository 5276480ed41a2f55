import Tellstone.Persistence.Log

/-! Appends on a device that may fail, crashes that keep a byte prefix of the
log, and what a later replay makes of the file. -/
namespace Tellstone
open ByteStream Framing

namespace Storage

/-- Beside the storage, the records whose call returned nil. -/
def logRun (P : Primitives) : Storage → List (Fault × LogCall) → Storage × List Record
  | s, [] => (s, [])
  | s, (fault, c) :: calls =>
    let (s', err) := s.log P fault c
    let (s'', acked) := s'.logRun P calls
    (s'', if err = none then c.record :: acked else acked)

def reopened (s : Storage) (ctr : UInt64) : Storage :=
  { s with handle := s.handle.map fun h => { h with nonceCtr := ctr } }

section
variable {P : Primitives} {s : Storage} {mode : WalMode} {rs : List LogEntry}

theorem Open.reopened {tail : Bytes} (opened : s.Open P mode rs tail) (ctr : UInt64) :
    (s.reopened ctr).Open P mode rs tail := by
  obtain ⟨enabled, writable, h, rfl, logs⟩ := opened
  refine ⟨enabled, writable, { h with nonceCtr := ctr }, rfl, ?_, logs.wal, logs.fits⟩
  simp [Storage.reopened, logs.handle]

theorem Open.absorb {r : LogEntry} (fits : mode.Fits r)
    (opened : s.Open P mode rs (mode.frame P s.shardID r)) : s.Open P mode (rs ++ [r]) [] := by
  obtain ⟨enabled, writable, h, rfl, logs⟩ := opened
  exact ⟨enabled, writable, h, rfl, logs.absorb fits⟩

theorem Open.logRun (law : P.Lawful) (opened : s.Open P mode rs []) (calls : List LogCall) :
    ∃ added, (s.logRun P (calls.map fun c => (none, c))).1.Open P mode (rs ++ added) [] ∧
      added.map (·.record) = (s.logRun P (calls.map fun c => (none, c))).2 ∧
      (s.logRun P (calls.map fun c => (none, c))).1.shardID = s.shardID := by
  induction calls generalizing s rs with
  | nil => exact ⟨[], by simpa [Storage.logRun] using opened, rfl, rfl⟩
  | cons c calls ih =>
    simp only [List.map_cons, Storage.logRun]
    obtain ⟨ctr, written, next, same, effect⟩ := opened.log law none c
    rw [List.nil_append] at next
    rcases effect with ⟨accepted, rfl, ok⟩ | ⟨refused, rfl, err⟩
    · rw [Fault.cut, ← same] at next
      obtain ⟨added, grown, records, id⟩ := ih (next.absorb (WalMode.accepts_fits accepted ctr))
      refine ⟨⟨ctr, c.record⟩ :: added, by simpa using grown, ?_, id.trans same⟩
      rw [if_pos (by simpa using ok), List.map_cons, records]
    · obtain ⟨added, grown, records, id⟩ := ih next
      exact ⟨added, grown, by rw [if_neg err, records], id.trans same⟩

theorem Open.crashed (law : P.Lawful) (opened : s.Open P mode rs []) {n : Nat}
    (magic : mode.magic.length ≤ n) :
    ∃ tail, Cut (mode.frame P s.shardID) mode.Fits tail ∧
      (s.setWal (s.wal.take n)).Open P mode
        (whole (fun r => mode.frameSize r.record) (n - mode.magic.length) rs) tail := by
  obtain ⟨enabled, writable, h, rfl, logs⟩ := opened
  obtain ⟨tail, split, cut⟩ :=
    take_frames (h.mode.frame P s.shardID) (n - h.mode.magic.length) rs logs.fits
  simp only [WalMode.frame_length law] at split
  refine ⟨tail, cut, enabled, writable, h, rfl, logs.handle, ?_, ?_⟩
  · rw [logs.wal_eq, List.append_nil, List.take_append, List.take_of_length_le magic, split]
    simp [setWal]
  · exact fun r mem => logs.fits r ((whole_start _ _ rs).subset mem)

theorem Open.wal_take (law : P.Lawful) {s' : Storage} {kept : List LogEntry}
    (opened : s.Open P mode rs []) (cut : s'.Open P mode kept []) (same : s'.shardID = s.shardID)
    (pre : kept <+: rs) :
    s'.wal = s.wal.take (mode.magic.length + ((kept.map (·.record)).map mode.frameSize).sum) := by
  obtain ⟨-, -, h, rfl, logs⟩ := opened
  obtain ⟨-, -, h', mode, logs'⟩ := cut
  obtain ⟨rest, rfl⟩ := pre
  have length : (kept.flatMap (h.mode.frame P s.shardID)).length =
      ((kept.map (·.record)).map h.mode.frameSize).sum := by
    rw [length_flatMap_frames]
    simp [WalMode.frame_length law, Function.comp_def]
  rw [logs.wal_eq, logs'.wal_eq, same, mode, ← length, List.append_nil, List.append_nil,
    List.flatMap_append, ← List.append_assoc, List.take_left' List.length_append]

end

end Storage

/-- Replay of a prefix of the log: the records wholly in it are applied, the file is cut behind
them, and later appends replay after them. -/
theorem crash_prefix_recovery {P : Primitives} (law : P.Lawful) (s : Storage) (h : ShardHandle)
    (enabled : s.enabled = true) (handle : s.handle = some h) (writable : h.mode.writable = true)
    (fresh : s.disk.wal = some h.mode.magic) (calls : List LogCall) (n : Nat)
    (magic : h.mode.magic.length ≤ n) (ctr : UInt64) (now : Time) (e : Engine)
    (unbounded : e.maxBytes = 0) :
    let (written, records) := s.logRun P (calls.map fun c => (none, c))
    let kept := whole h.mode.frameSize (n - h.mode.magic.length) records
    let replayed := ((written.setWal (written.wal.take n)).reopened ctr).replayWAL P now e
    replayed.err = none ∧
    replayed.engine = kept.foldl (fun e r => (applyRecord P now e r.header r.key r.value).1) e ∧
    replayed.storage.wal =
      written.wal.take (h.mode.magic.length + (kept.map h.mode.frameSize).sum) ∧
    ∀ (more : List LogCall) (ctr' : UInt64) (now' : Time) (e' : Engine), e'.maxBytes = 0 →
      let (extended, added) := replayed.storage.logRun P (more.map fun c => (none, c))
      let again := (extended.reopened ctr').replayWAL P now' e'
      again.err = none ∧
      again.engine = (kept ++ added).foldl
        (fun e r => (applyRecord P now' e r.header r.key r.value).1) e' := by
  have start : s.Open P h.mode [] [] :=
    ⟨enabled, writable, h, rfl, handle, by simpa using fresh, by simp⟩
  obtain ⟨entries, grown, records, sameID⟩ := start.logRun law calls
  rcases ran : s.logRun P (calls.map fun c => (none, c)) with ⟨written, rs⟩
  simp only [ran, List.nil_append] at grown records sameID ⊢
  subst records
  obtain ⟨tail, cut, crashed⟩ := grown.crashed law magic
  obtain ⟨s', replayed, recovered, sameID'⟩ := (crashed.reopened ctr).recovered law cut now
    (replayRecords_unbounded P now unbounded _)
  rw [replayed, whole_map]
  refine ⟨rfl, rfl, grown.wal_take law recovered sameID' (whole_start _ _ _), ?_⟩
  intro more ctr' now' e' unbounded'
  obtain ⟨added, extended, records, -⟩ := recovered.logRun law more
  simp only
  rcases ran' : s'.logRun P (more.map fun c => (none, c)) with ⟨longer, rs'⟩
  simp only [ran'] at extended records ⊢
  subst records
  obtain ⟨s'', again, -, -⟩ := (extended.reopened ctr').recovered law (Or.inl rfl) now'
    (replayRecords_unbounded P now' unbounded' _)
  rw [again]
  exact ⟨rfl, by simp [Function.comp_def]⟩

def plainShard : Storage where
  enabled := true
  shardID := 0
  disk := { Disk.empty with wal := some [] }
  handle := some ⟨.plaintext, 0⟩
  sealed := []

theorem crash_prefix_recovery_second_cut :
    let (written, records) := plainShard.logRun .tagged
      ([.write [107] [118] none, .delete [107]].map fun c => (none, c))
    records = [.set [107] [118] none, .tombstone [107]] ∧
      (((written.setWal (written.wal.take 20)).reopened 0).replayWAL .tagged 5
        (Engine.new 0 0 0 .passThrough 0)).err = none :=
  ⟨by decide +kernel,
    (crash_prefix_recovery Primitives.tagged_lawful plainShard ⟨.plaintext, 0⟩ rfl rfl rfl rfl
      [.write [107] [118] none, .delete [107]] 20 (by decide) 0 5
      (Engine.new 0 0 0 .passThrough 0) rfl).1⟩

def WalMode.tears (mode : WalMode) (call : Fault × LogCall) : Bool :=
  mode.accepts call.2 &&
    match call.1 with
    | none => false
    | some n => decide (0 < n ∧ n < mode.frameSize call.2.record)

def WalMode.writes (mode : WalMode) (call : Fault × LogCall) : Bool :=
  mode.accepts call.2 && decide (call.1 ≠ some 0)

namespace Storage

section
variable {P : Primitives} {s : Storage} {mode : WalMode} {rs : List LogEntry}

theorem Open.logRun_silent (law : P.Lawful) {tail : Bytes} (opened : s.Open P mode rs tail)
    {calls : List (Fault × LogCall)} (silent : ∀ c ∈ calls, mode.writes c = false) :
    (s.logRun P calls).1.Open P mode rs tail ∧ (s.logRun P calls).2 = [] ∧
      (s.logRun P calls).1.shardID = s.shardID := by
  induction calls generalizing s with
  | nil => exact ⟨opened, rfl, rfl⟩
  | cons call calls ih =>
    obtain ⟨fault, c⟩ := call
    have quiet := silent _ List.mem_cons_self
    obtain ⟨ctr, written, next, same, effect⟩ := opened.log law fault c
    have nothing : written = [] ∧ (s.log P fault c).2 ≠ none := by
      rcases effect with ⟨accepted, rfl, result⟩ | ⟨-, rfl, err⟩
      · simp only [WalMode.writes, accepted, Bool.true_and, ne_eq, decide_not, Bool.not_eq_false',
          decide_eq_true_eq] at quiet
        subst quiet
        exact ⟨rfl, by simp [result]⟩
      · exact ⟨rfl, err⟩
    rw [nothing.1, List.append_nil] at next
    obtain ⟨final, none, id⟩ := ih next (fun b hb => silent b (List.mem_cons_of_mem _ hb))
    refine ⟨final, ?_, id.trans same⟩
    simp only [Storage.logRun]
    rw [if_neg nothing.2, none]

/-- On a record boundary a call adds nothing, its whole record, or a part of it. -/
inductive Logged (P : Primitives) (mode : WalMode) (rs : List LogEntry) (shardID : Nat)
    (fault : Fault) (c : LogCall) : Storage → Option Error → Prop where
  | refused {s : Storage} {err : Error} (refused : mode.accepts c = false)
      (opened : s.Open P mode rs []) : Logged P mode rs shardID fault c s (some err)
  | whole {s : Storage} {err : Option Error} (ctr : UInt64) (accepted : mode.accepts c = true)
      (reached : ∀ n, fault = some n → mode.frameSize c.record ≤ n)
      (result : err = if fault.isNone then none else some .io)
      (opened : s.Open P mode (rs ++ [⟨ctr, c.record⟩]) []) :
      Logged P mode rs shardID fault c s err
  | torn {s : Storage} {err : Error} (ctr : UInt64) (n : Nat) (accepted : mode.accepts c = true)
      (cut : fault = some n) (short : n < mode.frameSize c.record)
      (opened : s.Open P mode rs ((mode.frame P shardID ⟨ctr, c.record⟩).take n)) :
      Logged P mode rs shardID fault c s (some err)

theorem Open.logged (law : P.Lawful) (opened : s.Open P mode rs []) (fault : Fault)
    (c : LogCall) :
    Logged P mode rs s.shardID fault c (s.log P fault c).1 (s.log P fault c).2 := by
  obtain ⟨ctr, written, next, same, effect⟩ := opened.log law fault c
  rw [List.nil_append] at next
  rcases effect with ⟨accepted, size, result⟩ | ⟨refused, rfl, err⟩
  · have fits := WalMode.accepts_fits accepted ctr
    have length := mode.frame_length law s.shardID ⟨ctr, c.record⟩
    have whole (all : written = mode.frame P s.shardID ⟨ctr, c.record⟩) :
        (s.log P fault c).1.Open P mode (rs ++ [⟨ctr, c.record⟩]) [] := by
      rw [all, ← same] at next
      exact next.absorb fits
    cases fault with
    | none => exact .whole ctr accepted (by simp) result (whole size)
    | some n =>
      by_cases all : mode.frameSize c.record ≤ n
      · refine .whole ctr accepted ?_ result
          (whole (size.trans (List.take_of_length_le (length.trans_le all))))
        rintro m ⟨rfl⟩
        exact all
      · rw [size] at next
        rw [result]
        exact .torn ctr n accepted rfl (Nat.lt_of_not_le all) next
  · obtain ⟨err, failed⟩ := Option.ne_none_iff_exists'.mp err
    rw [failed]
    exact .refused refused next

theorem cut_take (law : P.Lawful) (shardID : Nat) {ctr : UInt64} {c : LogCall}
    (accepted : mode.accepts c = true) {n : Nat} (short : n < mode.frameSize c.record) :
    Cut (mode.frame P shardID) mode.Fits ((mode.frame P shardID ⟨ctr, c.record⟩).take n) := by
  have length := mode.frame_length law shardID ⟨ctr, c.record⟩
  refine Or.inr ⟨_, WalMode.accepts_fits accepted ctr, List.take_prefix _ _, ?_⟩
  rw [List.length_take, length]
  simp only
  omega

theorem Open.log_cases (law : P.Lawful) (opened : s.Open P mode rs []) (fault : Fault)
    (c : LogCall) :
    (∃ ctr, (s.log P fault c).1.Open P mode (rs ++ [⟨ctr, c.record⟩]) []) ∨
      (s.log P fault c).2 ≠ none ∧ (s.log P fault c).1.Open P mode rs [] ∨
      (s.log P fault c).2 ≠ none ∧ mode.tears (fault, c) = true ∧
        ∃ tail, (s.log P fault c).1.Open P mode rs tail ∧
          Cut (mode.frame P s.shardID) mode.Fits tail := by
  have logged := opened.logged law fault c
  generalize (s.log P fault c).1 = s', (s.log P fault c).2 = err at logged ⊢
  cases logged with
  | refused refused next => exact Or.inr (Or.inl ⟨by simp, next⟩)
  | whole ctr accepted reached result next => exact Or.inl ⟨ctr, next⟩
  | torn ctr n accepted cut short next =>
    by_cases none : n = 0
    · subst none
      exact Or.inr (Or.inl ⟨by simp, next⟩)
    · refine Or.inr (Or.inr ⟨by simp, ?_, _, next, cut_take law s.shardID accepted short⟩)
      simp only [WalMode.tears, accepted, cut, Bool.true_and, decide_eq_true_eq]
      omega

theorem Open.log_ok {s' : Storage} (law : P.Lawful) (opened : s.Open P mode rs [])
    {fault : Fault} {c : LogCall} (ok : s.log P fault c = (s', none)) :
    fault = none ∧ mode.accepts c = true ∧ ∃ ctr, s'.Open P mode (rs ++ [⟨ctr, c.record⟩]) [] := by
  have logged := opened.logged law fault c
  rw [ok] at logged
  cases logged with
  | whole ctr accepted reached result next =>
    refine ⟨?_, accepted, ctr, next⟩
    cases fault with
    | none => rfl
    | some n => simp at result

theorem Open.log_shardID {tail : Bytes} (law : P.Lawful) (opened : s.Open P mode rs tail)
    (fault : Fault) (c : LogCall) : (s.log P fault c).1.shardID = s.shardID := by
  obtain ⟨-, -, -, same, -⟩ := opened.log law fault c
  exact same

theorem Open.logRun_faulty (law : P.Lawful) (opened : s.Open P mode rs [])
    {calls : List (Fault × LogCall)}
    (clean : calls.Pairwise fun a b => mode.tears a = true → mode.writes b = false) :
    ∃ added tail, (s.logRun P calls).1.Open P mode (rs ++ added) tail ∧
      Cut (mode.frame P s.shardID) mode.Fits tail ∧
      ((s.logRun P calls).2).Sublist (added.map (·.record)) ∧
      (∀ r ∈ added, ∃ c ∈ calls, r.record = c.2.record) ∧
      (s.logRun P calls).1.shardID = s.shardID := by
  induction calls generalizing s rs with
  | nil =>
    exact ⟨[], [], by simpa [Storage.logRun] using opened, Or.inl rfl, List.Sublist.refl _,
      by simp, rfl⟩
  | cons call calls ih =>
    obtain ⟨fault, c⟩ := call
    obtain ⟨first, rest⟩ := List.pairwise_cons.mp clean
    have same := opened.log_shardID law fault c
    simp only [Storage.logRun]
    rcases opened.log_cases law fault c with ⟨ctr, next⟩ | ⟨err, next⟩ | ⟨err, torn, tail, next, cut⟩
    · obtain ⟨added, tail, final, cut, acked, origin, id⟩ := ih next rest
      refine ⟨⟨ctr, c.record⟩ :: added, tail, by simpa using final, same ▸ cut, ?_, ?_,
        id.trans same⟩
      · rw [List.map_cons]
        split
        · exact acked.cons_cons _
        · exact acked.cons _
      · intro r mem
        rcases List.mem_cons.mp mem with rfl | later
        · exact ⟨(fault, c), List.mem_cons_self, rfl⟩
        · obtain ⟨d, at_d, eq⟩ := origin r later
          exact ⟨d, List.mem_cons_of_mem _ at_d, eq⟩
    · obtain ⟨added, tail, final, cut, acked, origin, id⟩ := ih next rest
      refine ⟨added, tail, final, same ▸ cut, by rwa [if_neg err], ?_, id.trans same⟩
      intro r mem
      obtain ⟨d, at_d, eq⟩ := origin r mem
      exact ⟨d, List.mem_cons_of_mem _ at_d, eq⟩
    · obtain ⟨final, none, id⟩ := next.logRun_silent law fun b hb => first b hb torn
      exact ⟨[], tail, by simpa using final, cut, by simp [if_neg err, none], by simp,
        id.trans same⟩

end

end Storage

theorem foldl_applyRecord_raw (P : Primitives) (now : Time) {key : Bytes} (rs : List Record)
    (absent : ∀ r ∈ rs, r.key ≠ key) (e : Engine) :
    (rs.foldl (fun e r => (applyRecord P now e r.header r.key r.value).1) e).raw key =
      e.raw key := by
  induction rs generalizing e with
  | nil => rfl
  | cons r rs ih =>
    rw [List.foldl_cons, ih (fun b hb => absent b (List.mem_cons_of_mem r hb)),
      applyRecord_raw_of_ne P now e _ _ (absent r List.mem_cons_self).symm]

/-- When nothing follows a torn record, a replay applies every acknowledged record in order, and
nothing that was not handed in. -/
theorem acknowledged_survive_faults {P : Primitives} (law : P.Lawful) (s : Storage)
    (mode : WalMode) (before : List LogEntry) (opened : s.Open P mode before [])
    (calls : List (Fault × LogCall))
    (clean : calls.Pairwise fun a b => mode.tears a = true → mode.writes b = false)
    (ctr : UInt64) (now : Time) (e : Engine) (unbounded : e.maxBytes = 0) :
    let (written, acked) := s.logRun P calls
    let replayed := (written.reopened ctr).replayWAL P now e
    let handedIn := before.map (·.record) ++ calls.map (·.2.record)
    replayed.err = none ∧
    replayed.engine =
      replayed.applied.foldl (fun e r => (applyRecord P now e r.header r.key r.value).1) e ∧
    (before.map (·.record) ++ acked).Sublist replayed.applied ∧
    (∀ r ∈ replayed.applied, r ∈ handedIn) ∧
    ∀ key, (∀ r ∈ handedIn, r.key ≠ key) → replayed.engine.raw key = e.raw key := by
  obtain ⟨added, tail, final, cut, acked, origin, same⟩ := opened.logRun_faulty law clean
  rcases ran : s.logRun P calls with ⟨written, acks⟩
  simp only [ran] at final acked same ⊢
  obtain ⟨s', replayed, -, -⟩ := (final.reopened ctr).recovered law (same ▸ cut) now
    (replayRecords_unbounded P now unbounded _)
  have handed : ∀ r ∈ (before ++ added).map (·.record),
      r ∈ before.map (·.record) ++ calls.map (·.2.record) := by
    intro r mem
    rw [List.map_append] at mem
    refine List.mem_append.mpr ((List.mem_append.mp mem).imp id fun new => ?_)
    obtain ⟨entry, at_entry, rfl⟩ := List.mem_map.mp new
    obtain ⟨c, at_c, eq⟩ := origin entry at_entry
    exact List.mem_map.mpr ⟨c, at_c, eq.symm⟩
  rw [replayed]
  refine ⟨rfl, rfl, ?_, handed, ?_⟩
  · rw [List.map_append]
    exact (List.Sublist.refl _).append acked
  · exact fun key absent => foldl_applyRecord_raw P now _ (fun r mem => absent r (handed r mem)) e

/-- A write that failed, with its whole record in the file, before one that succeeded. -/
theorem acknowledged_survive_failed_sync :
    let calls : List (Fault × LogCall) := [(some 18, .write [97] [49] none), (none, .delete [98])]
    let (written, acked) := plainShard.logRun .tagged calls
    acked = [.tombstone [98]] ∧
      ((written.reopened 0).replayWAL .tagged 5 (Engine.new 0 0 0 .passThrough 0)).err = none :=
  ⟨by decide +kernel,
    (acknowledged_survive_faults Primitives.tagged_lawful plainShard .plaintext []
      ⟨rfl, rfl, ⟨.plaintext, 0⟩, rfl, rfl, rfl, by simp⟩
      [(some 18, .write [97] [49] none), (none, .delete [98])] (by decide) 0 5
      (Engine.new 0 0 0 .passThrough 0) rfl).1⟩

/-- Three bytes of a failed write garble the next header: the next write succeeds and is lost. -/
theorem torn_append_loses_later_write :
    let calls : List (Fault × LogCall) :=
      [(some 3, .write [97] [49] none), (none, .write [98] [50] none)]
    let (written, acked) := plainShard.logRun .tagged calls
    let replayed := (written.reopened 0).replayWAL .tagged 5 (Engine.new 0 0 0 .passThrough 0)
    acked = [.set [98] [50] none] ∧ replayed.err = none ∧ replayed.applied = [] := by
  decide +kernel

end Tellstone
