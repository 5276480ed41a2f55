import Tellstone.Persistence.Admission
import Tellstone.Persistence.Restore
import Tellstone.Shard

/-! Restarting under the memory ceiling. Loading puts the snapshot in first and
then charges every record of the log in full, on top of it. -/
namespace Tellstone
open ByteStream ExpiringMap Framing

inductive Step where
  | execute (c : Request)
  | snapshot (now : Time) (order : MapOrder) (fork : Bool)

namespace Shard

def step (P : Primitives) (s : Shard) : Step → Shard × Option Error
  | .execute c =>
    let (s, response) := s.execute P c
    (s, response.err)
  | .snapshot now order fork =>
    let (store, err) := s.persistence.snapshot P now order fork s.engine
    (⟨s.engine, store⟩, err)

def steps (P : Primitives) : Shard → List Step → Shard × List (Option Error)
  | s, [] => (s, [])
  | s, step :: rest =>
    let (s, err) := s.step P step
    let (s, errs) := steps P s rest
    (s, err :: errs)

end Shard

/-- What a run has logged, and how much of it the last snapshot covers. -/
structure Book where
  logged : List LogCall
  dumped : Option (List LogCall)

def Book.step (b : Book) : Step → Book
  | .execute c => { b with logged := b.logged ++ c.logged }
  | .snapshot _ _ _ => { b with dumped := some b.logged }

def Book.of (steps : List Step) : Book := steps.foldl Book.step ⟨[], none⟩

def ledgerOf (crypto : CryptoEngine) (cs : List LogCall) : Ledger Bytes :=
  Ledger.postAll (Engine.charge crypto) ∅ (cs.map LogCall.update)

/-- The whole log, charged on top of the last snapshot, stays within the ceiling. -/
def Book.chargeable (crypto : CryptoEngine) (limit : Nat) (b : Book) : Bool :=
  b.dumped.all fun dumped =>
    Ledger.admits (Engine.charge crypto) limit (ledgerOf crypto dumped)
      (b.logged.map LogCall.update)

section
variable {cs : List LogCall}

theorem dated_of_forever (forever : ∀ c ∈ cs, ∀ k v exp, c = .write k v exp → exp = none) :
    ∀ c ∈ cs, c.dated = true := by
  intro c mem
  cases c with
  | write key value expiration =>
    obtain rfl := forever _ mem key value expiration rfl
    rfl
  | delete key => rfl

theorem effective_of_forever (forever : ∀ c ∈ cs, ∀ k v exp, c = .write k v exp → exp = none)
    (now : Time) :
    (cs.map LogCall.update).filter (Update.effective now) = cs.map LogCall.update := by
  rw [List.filter_eq_self]
  intro u mem
  obtain ⟨c, logged, rfl⟩ := List.mem_map.mp mem
  cases c with
  | write key value expiration =>
    obtain rfl := forever _ logged key value expiration rfl
    rfl
  | delete key => rfl

end

/-- An engine that has made the updates of `cs`, none of which expires. -/
structure Engine.Follows (crypto : CryptoEngine) (limit : Nat) (e : Engine) (cs : List LogCall) :
    Prop where
  timeless : e.Timeless
  accounted : e.Accounted
  cipher : e.crypto = crypto
  ceiling : e.maxBytes = limit
  ledger : e.ledger = ledgerOf crypto cs
  fits : ∀ entry ∈ e.items.entries, (snapshotRecord entry).Fits

namespace Engine

variable {P : Primitives} {crypto : CryptoEngine} {limit : Nat} {e : Engine} {cs : List LogCall}

theorem ledgerOf_concat (crypto : CryptoEngine) (cs : List LogCall) (c : LogCall) :
    ledgerOf crypto (cs ++ [c]) =
      Ledger.post (charge crypto) (ledgerOf crypto cs) c.update := by
  simp [ledgerOf, Ledger.postAll_concat]

theorem Follows.get (follows : e.Follows crypto limit cs) (now : Time) (key : Bytes) :
    (e.get P now key).1.Follows crypto limit cs := by
  have items : (e.get P now key).1.items = e.items := follows.timeless.get_items
  have allocated : (e.get P now key).1.allocatedBytes = e.allocatedBytes :=
    follows.timeless.get_allocatedBytes
  have ledger : (e.get P now key).1.ledger = e.ledger := by rw [Engine.ledger, items]; rfl
  constructor
  · exact follows.timeless.of_raw_eq (raw_congr items)
  · constructor
    · rw [allocated, ledger, follows.accounted.allocated]
    · rw [allocated, get_maxBytes]
      exact follows.accounted.within
  · rw [get_crypto, follows.cipher]
  · rw [get_maxBytes, follows.ceiling]
  · rw [ledger, follows.ledger]
  · rw [items]
    exact follows.fits

theorem Follows.set {e' : Engine} (law : P.Lawful) (follows : e.Follows crypto limit cs)
    {now : Time} {key value : Bytes} {ttl : Duration} (forever : ttl ≤ 0)
    (accepted : crypto.walMode.accepts (.write key value none) = true)
    (stored : e.set P now key value ttl = (e', none)) :
    e'.Follows crypto limit (cs ++ [.write key value none]) ∧
      (ledgerOf crypto cs).room limit (charge crypto key value) = true := by
  have room := set_ok_iff.mp (congrArg Prod.snd stored)
  obtain ⟨ledger, accounted⟩ := set_ledger law follows.accounted now ttl room
  have puts := set_puts P now ttl room
  rw [stored] at ledger accounted puts
  have never : expiry now ttl = none := if_neg (Int.not_lt.mpr forever)
  refine ⟨⟨follows.timeless.set forever stored, accounted, puts.crypto.trans follows.cipher,
    puts.maxBytes.trans follows.ceiling, ?_, ?_⟩, ?_⟩
  · rw [ledger, ledgerOf_concat, follows.ledger, follows.cipher]
    rfl
  · intro entry mem
    rw [puts.items, AList.entries_insert] at mem
    rcases List.mem_cons.mp mem with rfl | old
    · rw [never, follows.cipher]
      exact stored_fits law accepted e.draws
    · exact follows.fits entry ((List.kerase_sublist key _).subset old)
  · have free := follows.accounted.full_eq (key.length + e.crypto.storedSize value.length)
    rw [room, follows.ceiling, follows.ledger, follows.cipher] at free
    simpa [charge] using free.symm

theorem Follows.delete (follows : e.Follows crypto limit cs) (now : Time) (key : Bytes) :
    (e.delete now key).1.Follows crypto limit (cs ++ [.delete key]) := by
  constructor
  · exact follows.timeless.delete
  · exact follows.accounted.delete
  · rw [delete_crypto, follows.cipher]
  · rw [delete_maxBytes, follows.ceiling]
  · rw [delete_ledger, ledgerOf_concat, follows.ledger]
    rfl
  · intro entry mem
    rw [delete_items] at mem
    exact follows.fits entry ((List.kerase_sublist key _).subset mem)

theorem Timeless.forEach (timeless : e.Timeless) (now : Time) (order : MapOrder) :
    (e.forEach now order).Perm e.items.entries := by
  have all : e.forEach now order = order.visit e.items.entries := by
    rw [Engine.forEach, List.filter_eq_self]
    intro entry mem
    rw [timeless.entry ((order.perm _).subset mem)]
    rfl
  rw [all]
  exact order.perm _

end Engine

namespace Shard

/-- A shard against the book of its run. -/
structure Keeps (P : Primitives) (crypto : CryptoEngine) (limit : Nat) (s : Shard) (b : Book) :
    Prop where
  log : s.persistence.LogOf P crypto.walMode b.logged
  forever : ∀ c ∈ b.logged, ∀ k v exp, c = .write k v exp → exp = none
  follows : s.engine.Follows crypto limit b.logged
  admitted : Ledger.admits (Engine.charge crypto) limit ∅ (b.logged.map LogCall.update) = true
  snap : b.dumped = none ∧ s.persistence.disk.snap = none ∨
    ∃ dumped e now order, b.dumped = some dumped ∧ Engine.Follows crypto limit e dumped ∧
      s.persistence.Snaps P crypto (e.forEach now order)

section
variable {P : Primitives} {crypto : CryptoEngine} {limit : Nat} {s : Shard} {b : Book}
  {c : Request}

theorem Executed.follows {s' : Shard} {cs : List LogCall} (law : P.Lawful)
    (done : s.Executed P c s') (write : c.plainWrite = true)
    (log : s.persistence.LogOf P crypto.walMode cs) (follows : s.engine.Follows crypto limit cs) :
    s'.engine.Follows crypto limit (cs ++ c.logged) ∧
      Ledger.admits (Engine.charge crypto) limit (ledgerOf crypto cs)
        (c.logged.map LogCall.update) = true := by
  simp only [Request.plainWrite, Bool.and_eq_true, Bool.or_eq_true, decide_eq_true_eq] at write
  have never : expiry c.now c.ttl = none := if_neg (Int.not_lt.mpr write.2)
  cases done with
  | get op => simp [op] at write
  | set op logged stored =>
    obtain ⟨entries, opened, -⟩ := log
    rw [never] at logged
    obtain ⟨-, accepted, -⟩ := opened.log_ok law logged
    obtain ⟨next, room⟩ := (follows.get c.now c.key).set law write.2 accepted stored
    simp only [Request.logged, op, never]
    exact ⟨next, by simp [LogCall.update, Ledger.admits, room]⟩
  | del op logged =>
    simp only [Request.logged, op]
    exact ⟨follows.delete c.now c.key, by simp [LogCall.update, Ledger.admits]⟩

theorem Keeps.execute (law : P.Lawful) (keeps : s.Keeps P crypto limit b)
    (write : c.plainWrite = true) (ok : (s.execute P c).2.err = none) :
    (s.execute P c).1.Keeps P crypto limit (b.step (.execute c)) := by
  have done := execute_ok keeps.log.enabled ok
  obtain ⟨log, snap⟩ := done.log law keeps.log
  obtain ⟨follows, room⟩ := done.follows law write keeps.log keeps.follows
  obtain ⟨l, logs, -, never⟩ := c.plainWrite_logged write
  constructor
  · exact log
  · intro c' mem
    rw [Book.step, logs] at mem
    rcases List.mem_append.mp mem with old | new
    · exact keeps.forever c' old
    · rw [List.mem_singleton.mp new]
      exact never
  · exact follows
  · rw [Book.step, List.map_append, Ledger.admits_append, keeps.admitted, Bool.true_and]
    exact room
  · rw [snap]
    refine keeps.snap.imp id ?_
    rintro ⟨dumped, e, now, order, covered, same, snaps⟩
    exact ⟨dumped, e, now, order, covered, same, by rw [snap]; exact snaps.file, snaps.fits⟩

theorem Keeps.snapshot (keeps : s.Keeps P crypto limit b) (now : Time) (order : MapOrder)
    (fork : Bool) :
    let store := (s.persistence.snapshot P now order fork s.engine).1
    Keeps P crypto limit ⟨s.engine, store⟩ (b.step (.snapshot now order fork)) := by
  obtain ⟨entries, opened, records⟩ := keeps.log
  have fits : ∀ entry ∈ s.engine.forEach now order, (snapshotRecord entry).Fits := by
    intro entry mem
    exact keeps.follows.fits entry ((keeps.follows.timeless.forEach now order).subset mem)
  obtain ⟨-, snaps⟩ := opened.snapshot_snaps order fork fits
  constructor
  · exact ⟨entries, opened.snapshot now order fork s.engine, records⟩
  · exact keeps.forever
  · exact keeps.follows
  · exact keeps.admitted
  · exact Or.inr ⟨b.logged, s.engine, now, order, rfl, keeps.follows, snaps⟩

theorem Keeps.steps (law : P.Lawful) (keeps : s.Keeps P crypto limit b) {steps : List Step}
    (writes : ∀ c, .execute c ∈ steps → c.plainWrite = true)
    (ok : ∀ err ∈ (s.steps P steps).2, err = none) :
    (s.steps P steps).1.Keeps P crypto limit (steps.foldl Book.step b) := by
  induction steps generalizing s b with
  | nil => exact keeps
  | cons step steps ih =>
    simp only [Shard.steps, List.foldl_cons] at ok ⊢
    have later : ∀ c, .execute c ∈ steps → c.plainWrite = true :=
      fun c mem => writes c (List.mem_cons_of_mem step mem)
    have rest : ∀ err ∈ ((s.step P step).1.steps P steps).2, err = none :=
      fun err mem => ok err (List.mem_cons_of_mem _ mem)
    cases step with
    | execute c =>
      exact ih (keeps.execute law (writes c List.mem_cons_self) (ok _ List.mem_cons_self)) later rest
    | snapshot now order fork => exact ih (keeps.snapshot now order fork) later rest

theorem fresh_keeps (law : P.Lawful) (shardID : Nat) (crypto : CryptoEngine) (now : Time)
    (order : MapOrder) (cfg : Config) (draws : Nat) :
    ∃ s, run P now order cfg crypto draws (.fresh shardID) = (s, none) ∧
      s.Keeps P crypto (maxBytes cfg) ⟨[], none⟩ := by
  obtain ⟨store, started, log, snap⟩ := run_fresh law shardID crypto now order cfg draws
  refine ⟨_, started, log, by simp, ?_, rfl, Or.inl ⟨rfl, snap⟩⟩
  constructor
  · intro k x found
    cases found
  · exact Engine.new_accounted _ _ _ _ _
  · rfl
  · rfl
  · rfl
  · intro entry mem
    cases mem

theorem loads_dump (law : P.Lawful) {cfg : Config} {dumped : List LogCall} {e : Engine}
    (follows : e.Follows crypto (maxBytes cfg) dumped) {store : Storage} {createdAt : Time}
    {order : MapOrder} (snaps : store.Snaps P crypto (e.forEach createdAt order)) (now : Time)
    (draws : Nat) :
    ∃ e', (store.opened crypto).loadSnapshot P now (newEngine cfg crypto draws) = (e', none) ∧
      e'.Accounted ∧ e'.crypto = crypto ∧ e'.maxBytes = maxBytes cfg ∧
      e'.ledger.entries.Perm (ledgerOf crypto dumped).entries := by
  have perm := follows.timeless.forEach createdAt order
  have never : ∀ entry ∈ e.forEach createdAt order, entry.2.expiration = none := by
    intro entry mem
    exact follows.timeless.entry (perm.subset mem)
  have all : surviving now (e.forEach createdAt order) = e.forEach createdAt order := by
    rw [surviving, List.filter_eq_self]
    intro entry mem
    rw [never entry mem]
    rfl
  have size : ((e.forEach createdAt order).map Engine.entrySize).sum = e.allocatedBytes := by
    rw [follows.accounted.allocated, (perm.map Engine.entrySize).sum_nat, Engine.ledger_total]
  have opened : (store.opened crypto).Snaps P crypto (e.forEach createdAt order) :=
    ⟨snaps.file, snaps.fits⟩
  have dated : ∀ entry ∈ e.forEach createdAt order,
      (LogCall.write entry.1 entry.2.value entry.2.expiration).dated = true := by
    intro entry mem
    rw [never entry mem]
    rfl
  have fresh : (newEngine cfg crypto draws).Accounted := Engine.new_accounted _ _ _ _ _
  have within : maxBytes cfg = 0 ∨
      0 + ((e.forEach createdAt order).map Engine.entrySize).sum ≤ maxBytes cfg := by
    have within := follows.accounted.within
    rw [size, Nat.zero_add]
    rwa [follows.ceiling] at within
  have distinct : (e.forEach createdAt order ++ []).NodupKeys := by
    rw [List.append_nil]
    exact Engine.forEach_nodupKeys
  have restored := restore_room P now dated fresh within
  have loaded := opened.load_eq law now (newEngine cfg crypto draws) rfl rfl
  obtain ⟨items, accounted, cipher, ceiling⟩ :=
    restore_entries dated distinct fresh (Prod.ext rfl restored)
  rw [restored] at loaded
  refine ⟨_, loaded, accounted, cipher, ceiling, ?_⟩
  rw [← follows.ledger]
  apply Ledger.ofMap_perm
  rw [items, all, show (newEngine cfg crypto draws).items.entries = [] from rfl, List.append_nil]
  exact (List.reverse_perm _).trans perm

theorem Keeps.restart {cfg : Config} (law : P.Lawful) (keeps : s.Keeps P crypto (maxBytes cfg) b)
    (now : Time) (order : MapOrder) (draws : Nat) :
    (run P now order cfg crypto draws s.persistence.crash).2 = none ↔
      (crypto.enabled = true ∨ magicClash (b.logged.map LogCall.record) = false) ∧
        b.chargeable crypto (maxBytes cfg) = true := by
  obtain ⟨entries, opened, records⟩ := keeps.log
  have stores := opened.stores (Or.inl rfl)
  have wal := stores.wal
  rw [List.append_nil] at wal
  have opens := Storage.openable_records wal stores.fits
  rw [records] at opens
  have clear : s.persistence.crash.openable crypto = true ↔
      crypto.enabled = true ∨ magicClash (b.logged.map LogCall.record) = false := by
    rw [opens]
    simp
  have dated := dated_of_forever keeps.forever
  have spec := run_stores law stores now order cfg draws
  rw [records] at spec
  split at spec
  · rename_i openable
    obtain ⟨store, ran, -⟩ := spec
    rw [ran, ← clear]
    simp only [openable, true_and, Option.map_eq_none_iff, loads]
    rcases keeps.snap with ⟨nothing, missing⟩ | ⟨dumped, e, createdAt, order, covered, follows, snaps⟩
    · have absent : (s.persistence.crash.opened crypto).disk.snap = none := missing
      rw [loadSnapshot_missing P now absent]
      simp only [Book.chargeable, nothing, Option.all_none, iff_true]
      have fresh : (newEngine cfg crypto draws).Accounted := Engine.new_accounted _ _ _ _ _
      rw [(replayRecords_admits law now fresh keeps.log.fits dated).1,
        effective_of_forever keeps.forever]
      exact keeps.admitted
    · have crashed : s.persistence.crash.Snaps P crypto (e.forEach createdAt order) :=
        ⟨snaps.file, snaps.fits⟩
      obtain ⟨e', loaded, accounted, cipher, ceiling, ledger⟩ := loads_dump law follows crashed now draws
      rw [loaded]
      simp only [Book.chargeable, covered, Option.all_some]
      rw [(replayRecords_admits law now accounted keeps.log.fits dated).1, cipher, ceiling,
        effective_of_forever keeps.forever, Ledger.admits_perm _ _ ledger]
  · rename_i closed
    obtain ⟨err, ran⟩ := spec
    rw [ran, ← clear]
    simp [closed]

end

end Shard

open Shard in
/-- Over any run of writes without expiry and of snapshots, a restart succeeds exactly when the
log can be charged on top of the last snapshot. -/
theorem restart_under_ceiling {P : Primitives} (law : P.Lawful) (shardID : Nat) (cfg : Config)
    (crypto : CryptoEngine) (start now : Time) (order order' : MapOrder) (draws draws' : Nat)
    (steps : List Step) (writes : ∀ c, .execute c ∈ steps → c.plainWrite = true) :
    let first := run P start order cfg crypto draws (.fresh shardID)
    let live := first.1.steps P steps
    let book := Book.of steps
    (∀ err ∈ live.2, err = none) →
    ((run P now order' cfg crypto draws' live.1.persistence.crash).2 = none ↔
      (crypto.enabled = true ∨ magicClash (book.logged.map LogCall.record) = false) ∧
        book.chargeable crypto (maxBytes cfg) = true) := by
  obtain ⟨first, started, keeps⟩ := fresh_keeps law shardID crypto start order cfg draws
  simp only [started]
  intro ok
  exact (keeps.steps law writes ok).restart law now order' draws'

theorem restart_under_ceiling_small_entry :
    let steps : List Step :=
      [.execute (.healthy 1 .set [107] [49] 0), .snapshot 2 .asStored false,
        .execute (.healthy 3 .set [107] [50, 51] 0), .execute (.healthy 4 .del [120] [] 0)]
    let first := Shard.run .tagged 0 .asStored .tiny .passThrough 0 (.fresh 0)
    let live := first.1.steps .tagged steps
    (∀ err ∈ live.2, err = none) ∧
      (Shard.run .tagged 5 .asStored .tiny .passThrough 0 live.1.persistence.crash).2 = none :=
  ⟨by decide +kernel,
    (restart_under_ceiling Primitives.tagged_lawful 0 .tiny .passThrough 0 5 .asStored
      .asStored 0 0 _ (by simp [Request.plainWrite, Request.healthy]) (by decide +kernel)).mpr
      ⟨Or.inr (by decide), by decide +kernel⟩⟩

/-- Six of ten bytes are in the snapshot. The next start has no room for the record that made
them. -/
theorem snapshot_blocks_restart :
    let steps : List Step :=
      [.execute (.healthy 1 .set [107] [1, 2, 3, 4, 5] 0), .snapshot 2 .asStored false]
    let first := Shard.run .tagged 0 .asStored .tiny .passThrough 0 (.fresh 0)
    let live := first.1.steps .tagged steps
    (∀ err ∈ live.2, err = none) ∧
      (Shard.run .tagged 3 .asStored .tiny .passThrough 0 live.1.persistence.crash).2 =
        some (.loadPersistence 0 .engineFull) := by
  decide +kernel

end Tellstone
