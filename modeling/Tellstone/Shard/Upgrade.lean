import Mathlib.Algebra.Order.BigOperators.Group.List
import Tellstone.Persistence.Admission
import Tellstone.Persistence.Migration
import Tellstone.Shard.Compaction

/-! Turning encryption on: the first start with a key replays the plaintext log and rewrites it. -/
namespace Tellstone
open ByteStream ExpiringMap Framing

def rewritten (P : Primitives) (key : CipherKey) (entry : Sigma fun _ : Bytes => Item) : LogCall :=
  .write entry.1 (((CryptoEngine.chacha key).plain P entry.2.value).getD []) entry.2.expiration

section
variable {P : Primitives} {key : CipherKey} {cs : List LogCall}

theorem Sourced.rewritten (law : P.Lawful) {entry : Sigma fun _ : Bytes => Item}
    (sourced : Sourced P (.chacha key) cs entry) :
    ∃ v, rewritten P key entry = .write entry.1 v entry.2.expiration ∧
      LogCall.write entry.1 v entry.2.expiration ∈ cs ∧
      (∃ draw, entry.2.value = (CryptoEngine.chacha key).encryptInPlace P draw v) ∧
      (CryptoEngine.chacha key).plain P entry.2.value = some v ∧
      Storage.migrated P key true entry = .ok (.set entry.1 v entry.2.expiration) ∧
      Engine.charge (.chacha key) entry.1 v = Engine.entrySize entry := by
  obtain ⟨v, draw, mem, stored⟩ := sourced.write
  have plain : (CryptoEngine.chacha key).plain P entry.2.value = some v := by
    rw [stored, CryptoEngine.plain_encrypt law]
  refine ⟨v, by rw [Tellstone.rewritten, plain, Option.getD_some], mem, ⟨draw, stored⟩, plain, ?_, ?_⟩
  · simp only [Storage.migrated, ↓reduceIte, stored, CryptoEngine.decrypt_encrypt law]
    rfl
  · rw [Engine.charge, Engine.entrySize, stored, CryptoEngine.encryptInPlace_length law]

theorem rewritten_keys (P : Primitives) (key : CipherKey)
    (entries : List (Sigma fun _ : Bytes => Item)) :
    ((entries.map (rewritten P key)).map LogCall.update).map Update.key = entries.keys := by
  rw [List.map_map, List.map_map]
  rfl

namespace Engine

variable {e : Engine} {entries : List (Sigma fun _ : Bytes => Item)}

theorem SourcedBy.rewritten_subset (law : P.Lawful) (sourced : e.SourcedBy P (.chacha key) cs)
    (sub : entries ⊆ e.items.entries) : entries.map (rewritten P key) ⊆ cs := by
  intro c mem
  obtain ⟨entry, found, rfl⟩ := List.mem_map.mp mem
  obtain ⟨v, call, source, -⟩ := (sourced.entries entry (sub found)).rewritten law
  rw [call]
  exact source

theorem SourcedBy.by_rewritten (law : P.Lawful) (sourced : e.SourcedBy P (.chacha key) cs)
    (perm : entries.Perm e.items.entries) :
    e.SourcedBy P (.chacha key) (entries.map (rewritten P key)) := by
  refine ⟨sourced.cipher, ?_⟩
  intro entry mem
  obtain ⟨v, call, -, ⟨draw, stored⟩, -⟩ := (sourced.entries entry mem).rewritten law
  refine ⟨(sourced.entries entry mem).fits, v, draw, ?_, stored⟩
  rw [← call]
  exact List.mem_map_of_mem (perm.symm.subset mem)

theorem rewritten_others (sub : entries ⊆ e.items.entries) {k : Bytes}
    (missing : e.items.lookup k = none) :
    ∀ u ∈ (entries.map (rewritten P key)).map LogCall.update, u.key ≠ k := by
  rintro u mem rfl
  obtain ⟨c, here, rfl⟩ := List.mem_map.mp mem
  obtain ⟨entry, found, rfl⟩ := List.mem_map.mp here
  have stored : e.items.lookup entry.1 = some entry.2 := AList.mem_lookup_iff.mpr (sub found)
  rw [show e.items.lookup entry.1 = none from missing] at stored
  cases stored

theorem SourcedBy.contents_rewritten (law : P.Lawful) (sourced : e.SourcedBy P (.chacha key) cs)
    (perm : entries.Perm e.items.entries) :
    e.contents P =
      Update.applyAll (fun _ => none) ((entries.map (rewritten P key)).map LogCall.update) := by
  have distinct : (((entries.map (rewritten P key)).map LogCall.update).map Update.key).Nodup := by
    rw [rewritten_keys]
    exact (List.perm_nodupKeys perm).mpr e.items.nodupKeys
  funext k
  cases found : e.items.lookup k with
  | none =>
    have nothing : e.contents P k = none := by simp [contents, decode, raw, found]
    rw [nothing, Update.applyAll_of_others (rewritten_others perm.subset found)]
  | some item =>
    have entry : ⟨k, item⟩ ∈ e.items.entries := AList.mem_lookup_iff.mp found
    obtain ⟨v, call, -, -, plain, -⟩ := (sourced.entries _ entry).rewritten law
    have shown : e.contents P k = some (v, item.expiration) := by
      simp only [contents, decode, raw, found, sourced.cipher, Option.map_some, Option.bind_some]
      rw [plain]
      rfl
    rw [shown]
    refine (Update.applyAll_of_mem distinct ?_ _).symm
    have written : rewritten P key ⟨k, item⟩ ∈ entries.map (rewritten P key) :=
      List.mem_map_of_mem (perm.symm.subset entry)
    rw [call] at written
    exact List.mem_map_of_mem written

theorem SourcedBy.rewritten_cost (law : P.Lawful) (sourced : e.SourcedBy P (.chacha key) cs)
    (sub : entries ⊆ e.items.entries) :
    (((entries.map (rewritten P key)).map LogCall.update).map
      (Ledger.cost (charge (.chacha key)))).sum = (entries.map entrySize).sum := by
  rw [List.map_map, List.map_map]
  congr 1
  apply List.map_congr_left
  intro entry mem
  obtain ⟨v, call, -, -, -, -, size⟩ := (sourced.entries entry (sub mem)).rewritten law
  simp only [Function.comp_apply, call, LogCall.update, Ledger.cost, size]

end Engine

end

namespace Storage

section
variable {P : Primitives} {s : Storage} {key : CipherKey} {entries : List LogEntry}

theorem openShard_plaintext {wal : Bytes} (enabled : s.enabled = true)
    (file : s.disk.wal = some wal) (long : walMagicLen ≤ wal.length)
    (plaintext : wal.take walMagicLen ≠ walMagic) (key : CipherKey) :
    s.openShard (.chacha key) = ({ s with handle := some ⟨.migrating key, 0⟩ }, none) := by
  have here : s.wal = wal := by rw [Storage.wal, file, Option.getD_some]
  have same : s.setWal wal = s := by rw [setWal, ← file]
  have some : ¬ wal.length = 0 := by
    simp only [walMagicLen] at long
    omega
  simp [Storage.openShard, enabled, here, same, some, readFull, long, plaintext]

theorem Stores.openShard_key (stores : s.Stores P .passThrough entries [])
    (clear : magicClash (entries.map (·.record)) = false) (key : CipherKey) :
    s.openShard (.chacha key) =
      if entries = [] then ((s.setWal walMagic).opened (.chacha key), none)
      else ({ s with handle := some ⟨.migrating key, 0⟩ }, none) := by
  have wal := stores.wal
  cases entries with
  | nil =>
    have empty : s.wal = [] := by
      rw [Storage.wal, wal]
      rfl
    simp only [Storage.openShard, stores.enabled, empty, Bool.not_true, Bool.false_eq_true,
      List.length_nil, ↓reduceIte]
    rfl
  | cons r rest =>
    rw [if_neg (List.cons_ne_nil r rest)]
    have file : s.disk.wal =
        some (r.record.bytes ++ rest.flatMap (WalMode.frame P s.shardID .plaintext)) := by
      rw [wal, List.append_nil]
      rfl
    apply openShard_plaintext stores.enabled file
    · rw [List.length_append, r.record.bytes_length, walMagicLen]
      omega
    · have clash := putUint_eq_walMagic (stores.fits r List.mem_cons_self).record.key
      rw [Record.take_magic, Ne, clash]
      simpa [magicClash] using clear

end

end Storage

namespace Shard

section
variable {P : Primitives} {key : CipherKey} {cs : List LogCall} {now : Time}

theorem migrate_mirrors (law : P.Lawful) (store : Storage) {e : Engine}
    (enabled : store.enabled = true) (missing : store.disk.snap = none)
    (sourced : e.SourcedBy P (.chacha key) cs)
    (accepted : ∀ c ∈ cs, (WalMode.encrypted key).accepts c = true)
    (alive : ∀ entry ∈ e.items.entries, Update.survives now entry.2.expiration = true)
    (order : MapOrder) :
    ∃ store', store.migrate P now order (fun _ => none) key e = (store', none) ∧
      store'.disk.snap = none ∧
      Mirrors P (.chacha key) now ⟨e, store'⟩ ((order.visit e.items.entries).map (rewritten P key)) := by
  have perm : (order.visit e.items.entries).Perm e.items.entries := order.perm _
  have all : e.forEach now order = order.visit e.items.entries := by
    rw [Engine.forEach, List.filter_eq_self]
    intro entry mem
    have ahead := alive entry (perm.subset mem)
    cases exp : entry.2.expiration with
    | none => rfl
    | some t =>
      rw [exp] at ahead
      simp only [Update.survives, decide_eq_true_eq] at ahead
      simpa [expired] using Nat.le_of_lt ahead
  have calls := sourced.rewritten_subset law perm.subset
  have values : (order.visit e.items.entries).map (Storage.migrated P key true) =
      ((order.visit e.items.entries).map (rewritten P key)).map fun c => .ok c.record := by
    rw [List.map_map]
    apply List.map_congr_left
    intro entry mem
    obtain ⟨v, call, -, -, -, value, -⟩ := (sourced.entries entry (perm.subset mem)).rewritten law
    simp only [value, Function.comp_apply, call]
    rfl
  have short : ∀ c ∈ (order.visit e.items.entries).map (rewritten P key),
      sealedLen c.record ≤ maxUint32 := by
    intro c mem
    exact (WalMode.accepts_fits (accepted c (calls mem)) 0).2
  obtain ⟨f, added, ran, bytes, fits, records⟩ :=
    Storage.migrateRecords_whole law key true 0 values short (store.migrationFile key)
  have sealing : e.crypto.enabled = true := by rw [sourced.cipher]; rfl
  have contents := sourced.contents_rewritten law perm
  refine ⟨{ store with
    disk := writeNonceSidecar { store.disk with wal := some f.bytes, migrating := none } f.nonceCtr
    handle := some ⟨.encrypted key, f.nonceCtr⟩
    sealed := f.sealed }, ?_, missing, ?_⟩
  · simp only [Storage.migrate, Storage.migrateRecords, sealing, all, ran]
  · refine ⟨⟨added, ⟨enabled, rfl, ⟨.encrypted key, f.nonceCtr⟩, rfl, rfl, ?_, fits⟩, records⟩,
      ?_, sourced.by_rewritten law perm, Or.inl missing⟩
    · simp only [writeNonceSidecar, bytes, List.append_nil]
      rfl
    · simp only [contents]
      exact SameFrom.refl _ _

/-- The log was rewritten from `entries`, which came from the plaintext log `cs`. -/
structure Upgraded (P : Primitives) (key : CipherKey) (now : Time) (limit : Nat) (s : Shard)
    (cs : List LogCall) (entries : List (Sigma fun _ : Bytes => Item)) : Prop where
  mirrors : s.Mirrors P (.chacha key) now (entries.map (rewritten P key))
  missing : s.persistence.disk.snap = none
  perm : entries.Perm s.engine.items.entries
  accounted : s.engine.Accounted
  ceiling : s.engine.maxBytes = limit
  sourced : s.engine.SourcedBy P (.chacha key) cs
  contents : s.engine.contents P = Update.replayAll now (fun _ => none) (cs.map LogCall.update)

theorem alive_of_replay (law : P.Lawful) {e : Engine} (sourced : e.SourcedBy P (.chacha key) cs)
    (contents : e.contents P = Update.replayAll now (fun _ => none) (cs.map LogCall.update)) :
    ∀ entry ∈ e.items.entries, Update.survives now entry.2.expiration = true := by
  intro entry mem
  obtain ⟨v, -, -, -, plain, -⟩ := (sourced.entries entry mem).rewritten law
  have found : e.items.lookup entry.1 = some entry.2 := AList.mem_lookup_iff.mpr mem
  have shown : e.contents P entry.1 = some (v, entry.2.expiration) := by
    simp only [Engine.contents, decode, Engine.raw, found, sourced.cipher, Option.map_some,
      Option.bind_some, plain]
  rw [contents] at shown
  obtain ⟨-, -, -, alive, -⟩ := Update.replayAll_some shown
  exact alive

theorem Mirrors.upgrade (law : P.Lawful) {s : Shard} {t : Time}
    (mirrors : s.Mirrors P .passThrough t cs) (missing : s.persistence.disk.snap = none)
    (dated : ∀ c ∈ cs, c.dated = true) (clear : magicClash (cs.map LogCall.record) = false)
    (accepted : ∀ c ∈ cs, (WalMode.encrypted key).accepts c = true) {cfg : Config}
    (admitted : Ledger.admits (Engine.charge (.chacha key)) (maxBytes cfg) ∅
      ((cs.map LogCall.update).filter (Update.effective now)) = true)
    (order : MapOrder) (draws : Nat) :
    ∃ s' entries, run P now order cfg (.chacha key) draws s.persistence.crash = (s', none) ∧
      s'.Upgraded P key now (maxBytes cfg) cs entries := by
  obtain ⟨entries, opened, records⟩ := mirrors.log
  have stores : s.persistence.crash.Stores P .passThrough entries [] := opened.stores (Or.inl rfl)
  have opens := stores.openShard_key (by rw [records]; exact clear) key
  have fresh : (newEngine cfg (.chacha key) draws).Accounted := Engine.new_accounted _ _ _ _ _
  have admission := replayRecords_admits law now fresh mirrors.log.fits dated
  rcases replayed : replayRecords P now (newEngine cfg (.chacha key) draws)
    (cs.map LogCall.record) with ⟨e, err⟩
  rw [replayed] at admission
  obtain ⟨ok, accounted, ceiling⟩ := admission
  obtain rfl : err = none := ok.mpr admitted
  have empty : (newEngine cfg (.chacha key) draws).SourcedBy P (.chacha key) cs :=
    ⟨rfl, fun entry mem => by cases mem⟩
  have sourced := empty.replay law (List.Subset.refl cs) dated accepted replayed
  have contents := replayRecords_contents law mirrors.log.fits dated replayed
  by_cases nothing : entries = []
  · subst nothing
    obtain rfl : cs = [] := by simpa using records.symm
    cases replayed
    have stores' : (s.persistence.crash.setWal walMagic).Stores P (.chacha key) [] [] :=
      ⟨stores.enabled, by simp [Storage.setWal, CryptoEngine.walMode, WalMode.magic], by simp,
        Or.inl rfl⟩
    have absent :
        ((s.persistence.crash.setWal walMagic).opened (.chacha key)).disk.snap = none := missing
    have ran := run_opened law stores.enabled opens stores' now order cfg draws
      (loadSnapshot_missing P now absent _)
    refine ⟨_, [], ran, ⟨⟨[], recovered_open stores', rfl⟩, ?_, empty, Or.inl ?_⟩, ?_, ?_,
      accounted, ceiling, sourced, contents⟩
    · exact SameFrom.refl _ _
    · exact (recovered_snap _ _ _).trans missing
    · exact (recovered_snap _ _ _).trans missing
    · exact List.Perm.refl _
  · rw [if_neg nothing] at opens
    let waiting : Storage := { s.persistence.crash with handle := some ⟨.migrating key, 0⟩ }
    have logs : waiting.Logs P ⟨.migrating key, 0⟩ entries [] := ⟨rfl, stores.wal, stores.fits⟩
    have replay := Storage.replayWAL_log law logs (Or.inl rfl) now (newEngine cfg (.chacha key) draws)
    rw [records, replayed] at replay
    have snapless : waiting.disk.snap = none := missing
    obtain ⟨store, migrated, snap, rewrites⟩ := migrate_mirrors law
      (waiting.recovered P ⟨.migrating key, 0⟩ entries) stores.enabled missing sourced accepted
      (alive_of_replay law sourced contents) order
    refine ⟨⟨e, store⟩, order.visit e.items.entries, ?_, rewrites, snap, order.perm _, accounted,
      ceiling, sourced, contents⟩
    have on : (!waiting.enabled) = false := by
      rw [show waiting.enabled = true from stores.enabled]
      rfl
    have handle : (waiting.recovered P ⟨.migrating key, 0⟩ entries).handle =
        some ⟨.migrating key, 0⟩ := rfl
    simp only [run, if_pos stores.enabled, opens]
    change ((⟨(waiting.loadShard P now order (fun _ => none) _).engine,
      (waiting.loadShard P now order (fun _ => none) _).storage⟩ : Shard),
      Option.map _ (waiting.loadShard P now order (fun _ => none) _).err) = _
    simp only [Storage.loadShard, on, loadSnapshot_missing P now snapless, replay, handle, migrated,
      Bool.false_eq_true, ↓reduceIte]
    rfl

theorem Mirrors.restarts_admitted (law : P.Lawful) {s : Shard} {t : Time}
    (mirrors : s.Mirrors P (.chacha key) t cs) (missing : s.persistence.disk.snap = none)
    (dated : ∀ c ∈ cs, c.dated = true) {cfg : Config}
    (admitted : Ledger.admits (Engine.charge (.chacha key)) (maxBytes cfg) ∅
      ((cs.map LogCall.update).filter (Update.effective now)) = true)
    (order : MapOrder) (draws : Nat) :
    (run P now order cfg (.chacha key) draws s.persistence.crash).2 = none := by
  obtain ⟨entries, opened, records⟩ := mirrors.log
  have stores : s.persistence.crash.Stores P (.chacha key) entries [] := opened.stores (Or.inl rfl)
  have absent : (s.persistence.crash.opened (.chacha key)).disk.snap = none := missing
  have fresh : (newEngine cfg (.chacha key) draws).Accounted := Engine.new_accounted _ _ _ _ _
  have spec := run_stores law stores now order cfg draws
  rw [if_pos (stores.openable (Or.inl rfl)), records] at spec
  obtain ⟨store, ran, -⟩ := spec
  rw [ran, Option.map_eq_none_iff, loads, loadSnapshot_missing P now absent]
  exact (replayRecords_admits law now fresh mirrors.log.fits dated).1.mpr admitted

theorem Upgraded.restart (law : P.Lawful) {s : Shard} {cfg : Config}
    {entries : List (Sigma fun _ : Bytes => Item)}
    (upgraded : s.Upgraded P key now (maxBytes cfg) cs entries)
    (dated : ∀ c ∈ cs, c.dated = true) {later : Time}
    (apart : ∀ k v, LogCall.write k v (some later) ∉ cs) (order : MapOrder) (draws : Nat) :
    ∃ s', run P later order cfg (.chacha key) draws s.persistence.crash = (s', none) ∧
      s'.Mirrors P (.chacha key) later (entries.map (rewritten P key)) := by
  have calls := upgraded.sourced.rewritten_subset law upgraded.perm.subset
  have dated' : ∀ c ∈ entries.map (rewritten P key), c.dated = true :=
    fun c mem => dated c (calls mem)
  have distinct : (((entries.map (rewritten P key)).map LogCall.update).map Update.key).Nodup := by
    rw [rewritten_keys]
    exact (List.perm_nodupKeys upgraded.perm).mpr s.engine.items.nodupKeys
  have cost := upgraded.sourced.rewritten_cost law upgraded.perm.subset
  rw [(upgraded.perm.map Engine.entrySize).sum_nat, ← Engine.ledger_total,
    ← upgraded.accounted.allocated] at cost
  have admitted : Ledger.admits (Engine.charge (.chacha key)) (maxBytes cfg) ∅
      (((entries.map (rewritten P key)).map LogCall.update).filter (Update.effective later)) =
        true := by
    apply Ledger.admits_of_total
    have kept : ((((entries.map (rewritten P key)).map LogCall.update).filter
        (Update.effective later)).map (Ledger.cost (Engine.charge (.chacha key)))).sum ≤
          s.engine.allocatedBytes := by
      rw [← cost]
      exact (List.filter_sublist.map _).sum_le_sum (by simp)
    have within := upgraded.accounted.within
    rw [upgraded.ceiling] at within
    rw [Ledger.total_empty]
    omega
  have ok := upgraded.mirrors.restarts_admitted law upgraded.missing dated' admitted order draws
  refine ⟨_, Prod.ext rfl ok, upgraded.mirrors.restart law dated' ?_ (Prod.ext rfl ok)⟩
  exact ⟨fun k => Update.not_shadowed_of_nodup distinct later k, fun k v mem => apart k v (calls mem)⟩

end

end Shard

def CipherKey.ones : CipherKey := ⟨List.replicate 32 1, rfl⟩

end Tellstone
