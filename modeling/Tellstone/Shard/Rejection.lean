import Tellstone.Shard
import Tellstone.Storage.Eviction

/-! A SET that Execute rejects: what it leaves in the log, and what a restart
makes of that. -/
namespace Tellstone
open ByteStream ExpiringMap Framing

def Request.tidy (mode : WalMode) (c : Request) : Bool :=
  c.logged.all (fun l => !mode.tears (c.fault, l)) && !mode.tears (c.undoFault, .delete c.key)

abbrev Request.write (c : Request) : LogCall := .write c.key c.value (expiry c.now c.ttl)

namespace Shard

/-- Requests, eviction, snapshots, and restarts. A torn append is followed by a restart. -/
inductive Reachable (P : Primitives) (cfg : Config) (crypto : CryptoEngine) (shardID : Nat) :
    Shard → Prop where
  | start {s : Shard} (now : Time) (order : MapOrder) (draws : Nat)
      (ok : run P now order cfg crypto draws (.fresh shardID) = (s, none)) :
      Reachable P cfg crypto shardID s
  | execute {s : Shard} (c : Request) (tidy : c.tidy crypto.walMode = true) :
      Reachable P cfg crypto shardID s → Reachable P cfg crypto shardID (s.execute P c).1
  | tick {s : Shard} (now : Time) (phase : TickPhase) : Reachable P cfg crypto shardID s →
      Reachable P cfg crypto shardID ⟨(Machine.tick now ⟨s.engine, phase⟩).engine, s.persistence⟩
  | snapshot {s : Shard} (now : Time) (order : MapOrder) (fork : Bool) :
      Reachable P cfg crypto shardID s →
      Reachable P cfg crypto shardID
        ⟨s.engine, (s.persistence.snapshot P now order fork s.engine).1⟩
  | restart {s s' : Shard} (now : Time) (order : MapOrder) (draws : Nat)
      (ok : run P now order cfg crypto draws s.persistence.crash = (s', none)) :
      Reachable P cfg crypto shardID s → Reachable P cfg crypto shardID s'
  | crash {s s' : Shard} (c : Request) (now : Time) (order : MapOrder) (draws : Nat)
      (ok : run P now order cfg crypto draws (s.execute P c).1.persistence.crash = (s', none)) :
      Reachable P cfg crypto shardID s → Reachable P cfg crypto shardID s'

section
variable {P : Primitives} {s : Shard} {c : Request} {crypto : CryptoEngine}
  {entries : List LogEntry}

theorem log_tidy {store : Storage} {mode : WalMode} (law : P.Lawful)
    (opened : store.Open P mode entries []) {fault : Fault} {l : LogCall}
    (whole : mode.tears (fault, l) = false) :
    ∃ entries', (store.log P fault l).1.Open P mode entries' [] := by
  rcases opened.log_cases law fault l with ⟨ctr, next⟩ | ⟨-, next⟩ | ⟨-, torn, -⟩
  · exact ⟨_, next⟩
  · exact ⟨_, next⟩
  · simp [whole] at torn

theorem execute_tidy (law : P.Lawful) (opened : s.persistence.Open P crypto.walMode entries [])
    (tidy : c.tidy crypto.walMode = true) :
    ∃ entries', (s.execute P c).1.persistence.Open P crypto.walMode entries' [] := by
  simp only [Request.tidy, Bool.and_eq_true, List.all_eq_true, Bool.not_eq_true'] at tidy
  rcases execute_store opened.enabled c with same | ⟨l, logs, same | ⟨-, same⟩⟩
  · exact ⟨entries, same ▸ opened⟩
  · rw [same]
    exact log_tidy law opened (tidy.1 l (by simp [logs]))
  · rw [same]
    obtain ⟨entries', next⟩ := log_tidy law opened (tidy.1 l (by simp [logs]))
    exact log_tidy law next tidy.2

theorem execute_cut (law : P.Lawful) (opened : s.persistence.Open P crypto.walMode entries [])
    (c : Request) :
    ∃ entries' tail, (s.execute P c).1.persistence.Open P crypto.walMode entries' tail ∧
      Cut (crypto.walMode.frame P (s.execute P c).1.persistence.shardID) crypto.walMode.Fits
        tail := by
  have logs {store : Storage} {entries : List LogEntry}
      (opened : store.Open P crypto.walMode entries []) (fault : Fault) (l : LogCall) :
      ∃ entries' tail, (store.log P fault l).1.Open P crypto.walMode entries' tail ∧
        Cut (crypto.walMode.frame P (store.log P fault l).1.shardID) crypto.walMode.Fits tail := by
    rw [opened.log_shardID law fault l]
    rcases opened.log_cases law fault l with ⟨ctr, next⟩ | ⟨-, next⟩ | ⟨-, -, tail, next, cut⟩
    · exact ⟨_, [], next, Or.inl rfl⟩
    · exact ⟨_, [], next, Or.inl rfl⟩
    · exact ⟨_, tail, next, cut⟩
  rcases execute_store opened.enabled c with same | ⟨l, -, same | ⟨ok, same⟩⟩
  · exact ⟨entries, [], same ▸ opened, Or.inl rfl⟩
  · rw [same]
    exact logs opened c.fault l
  · rw [same]
    obtain ⟨-, -, ctr, next⟩ := opened.log_ok law (Prod.ext rfl ok)
    exact logs next c.undoFault _

theorem run_ok (law : P.Lawful) {store : Storage} {tail : Bytes}
    (stores : store.Stores P crypto entries tail) {now : Time} {order : MapOrder} {cfg : Config}
    {draws : Nat} {s : Shard} (ok : run P now order cfg crypto draws store = (s, none)) :
    s.persistence.Open P crypto.walMode entries [] := by
  have spec := run_stores law stores now order cfg draws
  split at spec
  · obtain ⟨persistence, ran, done⟩ := spec
    rw [ok] at ran
    injection ran with same none
    subst same
    exact (done (by simpa using none.symm)).1
  · obtain ⟨err, ran⟩ := spec
    rw [ok] at ran
    injection ran with _ failed
    cases failed

theorem Reachable.log {cfg : Config} {shardID : Nat} (law : P.Lawful)
    (reachable : Reachable P cfg crypto shardID s) :
    ∃ entries, s.persistence.Open P crypto.walMode entries [] := by
  induction reachable with
  | start now order draws ok =>
    obtain ⟨store, ran, ⟨entries, opened, -⟩, -⟩ := run_fresh law shardID crypto now order cfg draws
    rw [ok] at ran
    injection ran with same
    subst same
    exact ⟨entries, opened⟩
  | execute c tidy _ ih =>
    obtain ⟨entries, opened⟩ := ih
    exact execute_tidy law opened tidy
  | tick now phase _ ih => exact ih
  | snapshot now order fork _ ih =>
    obtain ⟨entries, opened⟩ := ih
    exact ⟨entries, opened.snapshot now order fork _⟩
  | restart now order draws ok _ ih =>
    obtain ⟨entries, opened⟩ := ih
    exact ⟨entries, run_ok law (opened.stores (Or.inl rfl)) ok⟩
  | crash c now order draws ok _ ih =>
    obtain ⟨entries, opened⟩ := ih
    obtain ⟨entries', tail, left, cut⟩ := execute_cut law opened c
    exact ⟨entries', run_ok law (left.stores cut) ok⟩

end

/-- The ways a SET of an enabled shard is rejected, with the files it leaves. -/
inductive Rejected (P : Primitives) (s : Shard) (c : Request) : Storage → Prop where
  | append {store : Storage} {err : Error}
      (failed : s.persistence.log P c.fault c.write =
        (store, some err)) : Rejected P s c store
  | kept {store : Storage}
      (logged : s.persistence.log P c.fault c.write =
        (store, none))
      (existed : (s.engine.read P c.now c.key).isSome = true) : Rejected P s c store
  | undone {store : Storage}
      (logged : s.persistence.log P c.fault c.write =
        (store, none))
      (absent : (s.engine.read P c.now c.key).isSome = false) :
      Rejected P s c (store.log P c.undoFault (.delete c.key)).1

section
variable {P : Primitives} {s : Shard} {c : Request} {crypto : CryptoEngine}
  {entries : List LogEntry}

theorem execute_rejected (enabled : s.persistence.enabled = true) (op : c.op = .set)
    (rejected : (s.execute P c).2.err ≠ none) :
    s.Rejected P c (s.execute P c).1.persistence := by
  unfold execute at rejected ⊢
  simp only [op, enabled, ↓reduceIte] at rejected ⊢
  rcases logged : s.persistence.write P c.fault c.key c.value (expiry c.now c.ttl) with
    ⟨store, _ | err⟩
  · simp only [logged] at rejected ⊢
    rcases stored : (s.engine.get P c.now c.key).1.set P c.now c.key c.value c.ttl with
      ⟨engine, _ | err⟩
    · simp only [stored] at rejected
      exact absurd rfl rejected
    · have on : store.enabled = true := by
        obtain ⟨wal, -, same, -⟩ := s.persistence.log_frame P c.fault
          c.write
        rw [show s.persistence.log P c.fault c.write =
          (store, none) from logged] at same
        exact same.trans enabled
      cases existed : (s.engine.read P c.now c.key).isSome with
      | true =>
        simp only [Engine.get_result, existed, Bool.not_true, Bool.and_false, Bool.false_eq_true,
          ↓reduceIte]
        exact .kept logged existed
      | false =>
        simp only [on, Engine.get_result, existed, Bool.not_false, Bool.and_self, ↓reduceIte]
        exact .undone logged existed
  · exact .append logged

/-- The files after a request, over those before it: some records more, and a cut one. -/
structure Leaves (P : Primitives) (crypto : CryptoEngine) (entries : List LogEntry)
    (before after : Storage) (added : List LogEntry) (tail : Bytes) : Prop where
  opened : after.Open P crypto.walMode (entries ++ added) tail
  cut : Cut (crypto.walMode.frame P before.shardID) crypto.walMode.Fits tail
  snap : after.disk.snap = before.disk.snap
  shardID : after.shardID = before.shardID

def Silent (P : Primitives) (now : Time) (e : Engine) (rs : List Record) : Prop :=
  ∃ e', replayRecords P now e rs = (e', none) ∧ e'.contents P = e.contents P

variable {before after : Storage} {added : List LogEntry} {tail : Bytes}

theorem Leaves.wal (opened : before.Open P crypto.walMode entries [])
    (leaves : Leaves P crypto entries before after added tail) :
    after.wal = before.wal ++ (added.flatMap (crypto.walMode.frame P before.shardID) ++ tail) := by
  obtain ⟨-, -, h, mode, logs⟩ := opened
  obtain ⟨-, -, h', mode', logs'⟩ := leaves.opened
  rw [logs'.wal_eq, logs.wal_eq, mode', mode, leaves.shardID]
  simp

theorem loads_append (P : Primitives) (now : Time) (store : Storage) (e : Engine)
    (rs more : List Record) :
    loads P now store e (rs ++ more) =
      match loads P now store e rs with
      | (e, none) => replayRecords P now e more
      | (e, some err) => (e, some err) := by
  simp only [loads]
  rcases store.loadSnapshot P now e with ⟨e', _ | err⟩
  · simp only [replayRecords, foldUntil_append]
    rcases foldUntil (replayRecord P now) e' rs with ⟨e'', _ | err⟩
    · rfl
    · rfl
  · rfl

theorem Leaves.restart (law : P.Lawful) (opened : before.Open P crypto.walMode entries [])
    (leaves : Leaves P crypto entries before after added tail) (now : Time) (order : MapOrder)
    (cfg : Config) (draws : Nat)
    (openable : after.crash.openable crypto = before.crash.openable crypto)
    (silent : Silent P now (run P now order cfg crypto draws before.crash).1.engine
      (added.map (·.record))) :
    let old := run P now order cfg crypto draws before.crash
    let new := run P now order cfg crypto draws after.crash
    (new.2 = none ↔ old.2 = none) ∧
      (old.2 = none → new.1.engine.contents P = old.1.engine.contents P) := by
  have cut := leaves.cut
  rw [← leaves.shardID] at cut
  have old := run_stores law (opened.stores (Or.inl rfl)) now order cfg draws
  have new := run_stores law (leaves.opened.stores cut) now order cfg draws
  have snapshot : loads P now (after.crash.opened crypto) =
      loads P now (before.crash.opened crypto) := by
    have same : (after.crash.opened crypto).loadSnapshot P now =
        (before.crash.opened crypto).loadSnapshot P now :=
      Storage.loadSnapshot_congr P now leaves.snap leaves.shardID rfl
    unfold loads
    rw [same]
  rw [openable, snapshot, List.map_append, loads_append] at new
  split at old
  · rename_i opens
    rw [if_pos opens] at new
    obtain ⟨store, ranOld, -⟩ := old
    obtain ⟨store', ranNew, -⟩ := new
    rw [ranOld] at silent
    simp only [ranOld, ranNew]
    rcases loaded : loads P now (before.crash.opened crypto) (newEngine cfg crypto draws)
      (entries.map (·.record)) with ⟨e, _ | err⟩
    · simp only [loaded] at silent ⊢
      obtain ⟨e', replayed, same⟩ := silent
      simp [replayed, same]
    · simp [loaded]
  · rename_i closed
    rw [if_neg closed] at new
    obtain ⟨err, ranOld⟩ := old
    obtain ⟨err', ranNew⟩ := new
    simp [ranOld, ranNew]

theorem openable_grown {s s' : Storage} {written : Bytes}
    (opened : s.Open P crypto.walMode entries []) (wal : s'.wal = s.wal ++ written)
    (clear : crypto.enabled = true ∨ s.wal ≠ [] ∨ ∃ n ≤ maxUint32, n ≠ uint walMagic ∧
      written.take walMagicLen = putUint 4 n) :
    s'.openable crypto = s.openable crypto := by
  cases crypto with
  | chacha key => rfl
  | passThrough =>
    obtain ⟨-, -, h, mode, logs⟩ := opened
    have file := logs.wal_eq
    rw [mode, List.append_nil] at file
    cases entries with
    | nil =>
      have empty : s.wal = [] := file
      simp only [CryptoEngine.enabled, Bool.false_eq_true, empty, ne_eq, not_true_eq_false,
        false_or] at clear
      obtain ⟨n, small, length, head⟩ := clear
      have long : walMagicLen ≤ written.length := by
        have size := congrArg List.length head
        rw [List.length_take, putUint_length] at size
        simp only [walMagicLen] at size ⊢
        omega
      have other : putUint 4 n ≠ walMagic := by
        rw [Ne, putUint_eq_walMagic small]
        exact length
      simp [Storage.openable, wal, empty, long, head, other]
    | cons r rest =>
      have long : walMagicLen ≤ s.wal.length := by
        rw [file]
        change 4 ≤ (r.record.bytes ++ _).length
        rw [List.length_append, r.record.bytes_length]
        omega
      have some : s.wal ≠ [] := by
        intro empty
        simp [empty, walMagicLen] at long
      have longer : walMagicLen ≤ s.wal.length + written.length := by omega
      simp [Storage.openable, wal, some, long, longer, List.take_append_of_le_length long]

theorem silent_nil (P : Primitives) (now : Time) (e : Engine) : Silent P now e [] :=
  ⟨e, rfl, rfl⟩

end

end Shard

namespace Request

/-- Without a key a log that was empty must not begin with the magic, or with
less than four bytes. -/
def opens (crypto : CryptoEngine) (store : Storage) (c : Request) : Bool :=
  crypto.enabled || decide (store.wal ≠ []) ||
    c.fault.takes walMagicLen && decide (c.key.length ≠ uint walMagic)

def admitted (now : Time) (e : Engine) (c : Request) : Bool :=
  !Update.survives now (expiry c.now c.ttl) ||
    !e.full (c.key.length + e.crypto.storedSize c.value.length)

def known (P : Primitives) (now : Time) (e : Engine) (c : Request) : Bool :=
  !Update.survives now (expiry c.now c.ttl) ||
    decide (e.contents P c.key = some (c.value, expiry c.now c.ttl))

def undone (P : Primitives) (mode : WalMode) (e : Engine) (c : Request) : Bool :=
  c.fault.isNone && (e.read P c.now c.key).isNone &&
    c.undoFault.takes (mode.frameSize (.tombstone c.key))

/-- A restart at `now` does not notice the rejection, `e` being what the files load to without it.
-/
def harmless (P : Primitives) (now : Time) (crypto : CryptoEngine) (s : Shard) (e : Engine)
    (c : Request) : Bool :=
  let mode := crypto.walMode
  !mode.writes (c.fault, c.write) ||
    c.opens crypto s.persistence &&
      (!c.fault.takes (mode.frameSize c.write.record) ||
        c.write.dated && c.admitted now e &&
          if c.undone P mode s.engine then decide (e.contents P c.key = none)
          else c.known P now e)

end Request

namespace Shard

section
variable {P : Primitives} {s : Shard} {c : Request} {crypto : CryptoEngine} {now : Time}
  {e : Engine} {entries : List LogEntry}

theorem silent_known (law : P.Lawful)
    (fits : c.write.record.Fits)
    (dated : c.write.dated = true)
    (admitted : c.admitted now e = true) (known : c.known P now e = true) :
    Silent P now e [c.write.record] := by
  simp only [Request.admitted, Request.known, Bool.or_eq_true, Bool.not_eq_true',
    decide_eq_true_eq] at admitted known
  obtain ⟨e', replayed, contents⟩ := replayRecord_room law fits dated admitted
  refine ⟨e', by simp [LogCall.record, replayRecords, foldUntil, replayed], ?_⟩
  rw [contents, Update.replay]
  split
  · rename_i alive
    have held : e.contents P c.key = some (c.value, expiry c.now c.ttl) := by
      simpa [alive] using known
    exact Function.update_eq_self_iff.mpr held.symm
  · rfl

theorem silent_undone (law : P.Lawful)
    (fits : c.write.record.Fits)
    (tombstone : (Record.tombstone c.key).Fits)
    (dated : c.write.dated = true)
    (admitted : c.admitted now e = true) (absent : e.contents P c.key = none) :
    Silent P now e [c.write.record, .tombstone c.key] := by
  simp only [Request.admitted, Bool.or_eq_true, Bool.not_eq_true'] at admitted
  obtain ⟨e', replayed, contents⟩ := replayRecord_room law fits dated admitted
  refine ⟨(e'.delete now c.key).1,
    by simp [LogCall.record, replayRecords, foldUntil, replayed, replayRecord_tombstone tombstone], ?_⟩
  have unchanged : ExpiringMap.erase (e.contents P) c.key = e.contents P :=
    Function.update_eq_self_iff.mpr absent.symm
  rw [Engine.contents_delete, contents, Update.replay]
  split
  · rw [ExpiringMap.erase, ExpiringMap.put, Function.update_idem]
    exact unchanged
  · exact unchanged

def Unnoticed (P : Primitives) (now : Time) (crypto : CryptoEngine) (entries : List LogEntry)
    (e : Engine) (before after : Storage) : Prop :=
  ∃ added tail, Leaves P crypto entries before after added tail ∧
    after.openable crypto = before.openable crypto ∧ Silent P now e (added.map (·.record))

variable {before after : Storage} {added : List LogEntry} {tail : Bytes}

theorem Unnoticed.nothing (opened : before.Open P crypto.walMode entries [])
    (leaves : Leaves P crypto entries before after [] []) :
    Unnoticed P now crypto entries e before after := by
  refine ⟨[], [], leaves, ?_, silent_nil P now e⟩
  have same : after.wal = before.wal := by simpa using leaves.wal opened
  rw [Storage.openable, Storage.openable, same]

theorem Leaves.openable (opened : before.Open P crypto.walMode entries [])
    (leaves : Leaves P crypto entries before after added tail)
    (opens : c.opens crypto before = true) (small : c.key.length ≤ maxUint32)
    (start : c.fault.takes walMagicLen = true → crypto = .passThrough →
      (added.flatMap (crypto.walMode.frame P before.shardID) ++ tail).take walMagicLen =
        putUint 4 c.key.length) :
    after.openable crypto = before.openable crypto := by
  apply openable_grown opened (leaves.wal opened)
  cases crypto with
  | chacha key => exact Or.inl rfl
  | passThrough =>
    simp only [Request.opens, CryptoEngine.enabled, Bool.false_or, Bool.or_eq_true,
      Bool.and_eq_true, decide_eq_true_eq] at opens
    rcases opens with some | ⟨takes, length⟩
    · exact Or.inr (Or.inl some)
    · exact Or.inr (Or.inr ⟨c.key.length, small, length, start takes rfl⟩)

theorem Unnoticed.whole {ctr : UInt64} {rest : List LogEntry}
    (opened : before.Open P crypto.walMode entries [])
    (leaves : Leaves P crypto entries before after
      (⟨ctr, c.write.record⟩ :: rest) tail)
    (opens : c.opens crypto before = true) (small : c.key.length ≤ maxUint32)
    (silent : Silent P now e (c.write.record :: rest.map (·.record))) :
    Unnoticed P now crypto entries e before after := by
  refine ⟨_, tail, leaves, leaves.openable opened opens small ?_, silent⟩
  rintro - rfl
  simp only [List.flatMap_cons, List.append_assoc]
  exact Record.take_magic c.write.record _

theorem Unnoticed.torn {ctr : UInt64} {n : Nat}
    (opened : before.Open P crypto.walMode entries [])
    (leaves : Leaves P crypto entries before after []
      ((crypto.walMode.frame P before.shardID
        ⟨ctr, c.write.record⟩).take n))
    (cut : c.fault = some n) (opens : c.opens crypto before = true)
    (small : c.key.length ≤ maxUint32) : Unnoticed P now crypto entries e before after := by
  refine ⟨[], _, leaves, leaves.openable opened opens small ?_, silent_nil P now e⟩
  rintro takes rfl
  have long : walMagicLen ≤ n := by simpa [Fault.takes, cut] using takes
  rw [List.flatMap_nil, List.nil_append, List.take_take, Nat.min_eq_left long]
  have head := Record.take_magic c.write.record []
  rw [List.append_nil] at head
  exact head

theorem harmless_opens (harmless : c.harmless P now crypto s e = true)
    (accepted : crypto.walMode.accepts c.write = true) (reaches : c.fault ≠ some 0) :
    c.opens crypto s.persistence = true := by
  have writes : crypto.walMode.writes (c.fault, c.write) = true := by
    simp [WalMode.writes, accepted, reaches]
  simp only [Request.harmless, writes, Bool.not_true, Bool.false_or, Bool.and_eq_true] at harmless
  exact harmless.1

theorem harmless_whole (harmless : c.harmless P now crypto s e = true)
    (accepted : crypto.walMode.accepts c.write = true)
    (reached : ∀ n, c.fault = some n → crypto.walMode.frameSize c.write.record ≤ n) :
    c.opens crypto s.persistence = true ∧ c.write.dated = true ∧ c.admitted now e = true ∧
      if c.undone P crypto.walMode s.engine then e.contents P c.key = none
      else c.known P now e = true := by
  have size := crypto.walMode.frameSize_pos c.write.record
  have reaches : c.fault ≠ some 0 := by
    intro fault
    have := reached 0 fault
    omega
  refine ⟨harmless_opens harmless accepted reaches, ?_⟩
  have writes : crypto.walMode.writes (c.fault, c.write) = true := by
    simp [WalMode.writes, accepted, reaches]
  have all : c.fault.takes (crypto.walMode.frameSize c.write.record) = true :=
    Fault.takes_iff.mpr reached
  simp only [Request.harmless, writes, all, Bool.not_true, Bool.false_or, Bool.and_eq_true]
    at harmless
  obtain ⟨-, ⟨dated, admitted⟩, rest⟩ := harmless
  refine ⟨dated, admitted, ?_⟩
  split
  · rename_i undone
    simpa [undone] using rest
  · rename_i left
    simpa [left] using rest

theorem accepts_key {mode : WalMode} (accepted : mode.accepts c.write = true) :
    c.key.length ≤ maxUint32 := by
  simp only [WalMode.accepts, Bool.and_eq_true, decide_eq_true_eq] at accepted
  exact accepted.1.1

theorem Rejected.unnoticed {store : Storage} (law : P.Lawful)
    (opened : s.persistence.Open P crypto.walMode entries [])
    (rejected : s.Rejected P c store) (harmless : c.harmless P now crypto s e = true) :
    Unnoticed P now crypto entries e s.persistence store := by
  obtain ⟨wal, disk, -, id⟩ := s.persistence.log_frame P c.fault c.write
  have snap := congrArg Disk.snap disk
  -- The record is whole and stays: it must be one the map has already.
  have stays {store : Storage} {ctr : UInt64} {tail : Bytes}
      (leaves : Leaves P crypto entries s.persistence store [⟨ctr, c.write.record⟩] tail)
      (accepted : crypto.walMode.accepts c.write = true)
      (reached : ∀ n, c.fault = some n → crypto.walMode.frameSize c.write.record ≤ n)
      (left : c.undone P crypto.walMode s.engine = false) :
      Unnoticed P now crypto entries e s.persistence store := by
    obtain ⟨opens, dated, admitted, known⟩ := harmless_whole harmless accepted reached
    rw [left] at known
    exact .whole opened leaves opens (accepts_key accepted)
      (silent_known law (WalMode.accepts_fits accepted ctr).record dated admitted known)
  cases rejected with
  | append failed =>
    have logged := opened.logged law c.fault c.write
    rw [failed] at logged snap id
    cases logged with
    | refused refused next => exact .nothing opened ⟨by simpa using next, Or.inl rfl, snap, id⟩
    | whole ctr accepted reached result next =>
      refine stays ⟨next, Or.inl rfl, snap, id⟩ accepted reached ?_
      cases fault : c.fault with
      | none => simp [fault] at result
      | some n => simp [Request.undone, fault]
    | torn ctr n accepted cut short next =>
      by_cases none : n = 0
      · subst none
        exact .nothing opened ⟨by simpa using next, Or.inl rfl, snap, id⟩
      · have opens := harmless_opens harmless accepted (by simpa [cut] using none)
        exact .torn opened ⟨by simpa using next, Storage.cut_take law _ accepted short, snap, id⟩ cut opens
          (accepts_key accepted)
  | kept logged existed =>
    rw [logged] at snap id
    obtain ⟨fault, accepted, ctr, next⟩ := opened.log_ok law logged
    refine stays ⟨next, Or.inl rfl, snap, id⟩ accepted (by simp [fault]) ?_
    simp [Request.undone, Option.isNone_eq_false_iff.mpr existed]
  | undone logged absent =>
    rename_i store
    rw [logged] at snap id
    obtain ⟨fault, accepted, ctr, next⟩ := opened.log_ok law logged
    have logged' := next.logged law c.undoFault (.delete c.key)
    obtain ⟨wal', disk', -, id'⟩ := store.log_frame P c.undoFault (.delete c.key)
    have snap' := (congrArg Disk.snap disk').trans snap
    have missing : (s.engine.read P c.now c.key).isNone = true := by simpa using absent
    generalize store.log P c.undoFault (.delete c.key) = outcome at logged' snap' id' ⊢
    rcases outcome with ⟨store', err⟩
    cases logged' with
    | refused refused _ => simp [WalMode.accepts_delete accepted] at refused
    | whole ctr' accepted' reached _ next' =>
      rw [List.append_assoc] at next'
      have leaves : Leaves P crypto entries s.persistence store'
          [⟨ctr, c.write.record⟩, ⟨ctr', .tombstone c.key⟩] [] :=
        ⟨next', Or.inl rfl, snap', id'.trans id⟩
      have taken : c.undoFault.takes (crypto.walMode.frameSize (.tombstone c.key)) = true :=
        Fault.takes_iff.mpr reached
      have gone : c.undone P crypto.walMode s.engine = true := by
        simp [Request.undone, fault, missing, taken]
      obtain ⟨opens, dated, admitted, rest⟩ := harmless_whole harmless accepted (by simp [fault])
      rw [gone] at rest
      exact .whole opened leaves opens (accepts_key accepted)
        (silent_undone law (WalMode.accepts_fits accepted ctr).record
          (WalMode.accepts_fits accepted' ctr').record dated admitted rest)
    | torn ctr' n accepted' cut short next' =>
      refine stays ⟨next', ?_, snap', id'.trans id⟩ accepted (by simp [fault]) ?_
      · rw [← id]
        exact Storage.cut_take law _ accepted' short
      · have size : n < crypto.walMode.frameSize (.tombstone c.key) := short
        simp [Request.undone, Fault.takes, cut, size]

end

end Shard

open Shard in
/-- Whatever state a shard has come to, a harmless rejection leaves no trace: a restart ends as
without the call, on the same map. -/
theorem rejected_set_leaves_no_trace {P : Primitives} (law : P.Lawful) (cfg : Config)
    (crypto : CryptoEngine) (shardID : Nat) (s : Shard)
    (reachable : Reachable P cfg crypto shardID s) (c : Request) (op : c.op = .set)
    (rejected : (s.execute P c).2.err ≠ none) (now : Time) (order : MapOrder) (draws : Nat)
    (harmless : c.harmless P now crypto s
      (run P now order cfg crypto draws s.persistence.crash).1.engine = true) :
    let before := run P now order cfg crypto draws s.persistence.crash
    let after := run P now order cfg crypto draws (s.execute P c).1.persistence.crash
    (after.2 = none ↔ before.2 = none) ∧
      (before.2 = none → after.1.engine.contents P = before.1.engine.contents P) := by
  obtain ⟨entries, opened⟩ := reachable.log law
  have left := execute_rejected opened.enabled op rejected
  obtain ⟨added, tail, leaves, openable, silent⟩ := left.unnoticed law opened harmless
  exact leaves.restart law opened now order cfg draws openable silent

theorem rejected_set_leaves_no_trace_torn :
    let s := (Shard.run .tagged 1 .asStored .tiny .passThrough 0 (.fresh 0)).1
    let c : Request := ⟨2, .set, [107], [1], 0, some 5, none⟩
    let before := Shard.run .tagged 3 .asStored .tiny .passThrough 0 s.persistence.crash
    let after := Shard.run .tagged 3 .asStored .tiny .passThrough 0
      (s.execute .tagged c).1.persistence.crash
    (s.execute .tagged c).2.err = some .io ∧ before.2 = none ∧ (after.2 = none ↔ before.2 = none) :=
  ⟨by decide +kernel, by decide +kernel,
    (rejected_set_leaves_no_trace Primitives.tagged_lawful .tiny .passThrough 0 _
      (.start 1 .asStored 0 (Prod.ext rfl (by decide +kernel)))
      ⟨2, .set, [107], [1], 0, some 5, none⟩ rfl (by decide +kernel) 3 .asStored 0
      (by decide +kernel)).1⟩

/-- The record of the rejected key stays in the log, and at the next start is over the ceiling
again. -/
theorem rejected_set_blocks_restart :
    let s := (Shard.run .tagged 1 .asStored .tiny .passThrough 0 (.fresh 0)).1
    let s := (s.execute .tagged (.healthy 2 .set [97] [1, 2, 3, 4, 5] 0)).1
    let (s', response) := s.execute .tagged (.healthy 3 .set [98] [1, 2, 3, 4, 5] 0)
    response.err = some .engineFull ∧
      (Shard.run .tagged 4 .asStored .tiny .passThrough 0 s.persistence.crash).2 = none ∧
      (Shard.run .tagged 4 .asStored .tiny .passThrough 0 s'.persistence.crash).2 =
        some (.loadPersistence 0 .engineFull) := by
  decide +kernel

end Tellstone
