import Tellstone.Persistence.Restore
import Tellstone.Shard

/-! A restart against the shard that was running: the log replays to the map the
engine held, except where an entry that has expired hid an older one. -/
namespace Tellstone
open ByteStream ExpiringMap Framing

/-- The entry was written by a SET of `cs`, and fits a snapshot. -/
structure Sourced (P : Primitives) (crypto : CryptoEngine) (cs : List LogCall)
    (entry : Sigma fun _ : Bytes => Item) : Prop where
  fits : (snapshotRecord entry).Fits
  write : ∃ v draw, LogCall.write entry.1 v entry.2.expiration ∈ cs ∧
    entry.2.value = crypto.encryptInPlace P draw v

section
variable {P : Primitives} {crypto : CryptoEngine} {cs cs' : List LogCall}
  {entry : Sigma fun _ : Bytes => Item}

theorem Sourced.mono (sourced : Sourced P crypto cs entry) (sub : cs ⊆ cs') :
    Sourced P crypto cs' entry := by
  obtain ⟨v, draw, mem, stored⟩ := sourced.write
  exact ⟨sourced.fits, v, draw, sub mem, stored⟩

theorem Sourced.dated (sourced : Sourced P crypto cs entry) (dated : ∀ c ∈ cs, c.dated = true) :
    (LogCall.write entry.1 entry.2.value entry.2.expiration).dated = true := by
  obtain ⟨v, draw, mem, -⟩ := sourced.write
  have same := dated _ mem
  cases exp : entry.2.expiration with
  | none => rfl
  | some t =>
    rw [exp] at same
    exact same

end

namespace Engine

/-- An engine under `crypto` that holds entries of `cs` only. -/
structure SourcedBy (P : Primitives) (crypto : CryptoEngine) (cs : List LogCall) (e : Engine) :
    Prop where
  cipher : e.crypto = crypto
  entries : ∀ entry ∈ e.items.entries, Sourced P crypto cs entry

section
variable {P : Primitives} {now : Time} {e e' : Engine} {crypto : CryptoEngine}
  {cs : List LogCall} {key value : Bytes}

theorem SourcedBy.kept (sourced : e.SourcedBy P crypto cs) (cipher : e'.crypto = e.crypto)
    (items : e'.items.entries ⊆ e.items.entries) : e'.SourcedBy P crypto cs :=
  ⟨cipher.trans sourced.cipher, fun entry mem => sourced.entries entry (items mem)⟩

theorem SourcedBy.mono {cs' : List LogCall} (sourced : e.SourcedBy P crypto cs) (sub : cs ⊆ cs') :
    e.SourcedBy P crypto cs' :=
  ⟨sourced.cipher, fun entry mem => (sourced.entries entry mem).mono sub⟩

theorem SourcedBy.delete (sourced : e.SourcedBy P crypto cs) (now : Time) (key : Bytes) :
    (e.delete now key).1.SourcedBy P crypto cs := by
  apply sourced.kept (delete_crypto now e key)
  rw [delete_items]
  exact (List.kerase_sublist key _).subset

theorem SourcedBy.get (sourced : e.SourcedBy P crypto cs) (now : Time) (key : Bytes) :
    (e.get P now key).1.SourcedBy P crypto cs := by
  apply sourced.kept (get_crypto P now e key)
  rw [get_items]
  split
  · exact (List.kerase_sublist key _).subset
  · exact List.Subset.refl _

theorem SourcedBy.set (law : P.Lawful) (sourced : e.SourcedBy P crypto cs)
    {ttl : Duration} {exp : Option Time} (instant : expiry now ttl = exp)
    (accepted : crypto.walMode.accepts (.write key value exp) = true)
    (source : LogCall.write key value exp ∈ cs)
    (stored : e.set P now key value ttl = (e', none)) : e'.SourcedBy P crypto cs := by
  have room := set_ok_iff.mp (congrArg Prod.snd stored)
  have puts := set_puts P now ttl room
  rw [stored, instant, sourced.cipher] at puts
  refine ⟨puts.crypto.trans sourced.cipher, ?_⟩
  intro entry mem
  rw [puts.items, AList.entries_insert] at mem
  rcases List.mem_cons.mp mem with rfl | old
  · exact ⟨stored_fits law accepted e.draws, value, e.draws, source, rfl⟩
  · exact sourced.entries entry ((List.kerase_sublist key _).subset old)

theorem SourcedBy.replay (law : P.Lawful) (sourced : e.SourcedBy P crypto cs)
    {rs : List LogCall} (sub : rs ⊆ cs) (dated : ∀ c ∈ cs, c.dated = true)
    (accepted : ∀ c ∈ cs, crypto.walMode.accepts c = true)
    (ok : replayRecords P now e (rs.map LogCall.record) = (e', none)) :
    e'.SourcedBy P crypto cs := by
  induction rs generalizing e with
  | nil =>
    cases ok
    exact sourced
  | cons c rs ih =>
    have here : c ∈ cs := sub List.mem_cons_self
    have fits : c.record.Fits := (WalMode.accepts_fits (accepted c here) 0).record
    simp only [replayRecords, List.map_cons, foldUntil] at ok
    rcases first : replayRecord P now e c.record with ⟨e₁, _ | err⟩
    · simp only [first] at ok
      suffices next : e₁.SourcedBy P crypto cs from
        ih next (fun b hb => sub (List.mem_cons_of_mem c hb)) ok
      cases c with
      | write key value expiration =>
        rcases replayRecord_set P now e fits (dated _ here) with
          ⟨-, same⟩ | ⟨-, ttl, instant, stored⟩
        · rw [LogCall.record, same] at first
          cases first
          exact sourced
        · rw [LogCall.record, stored] at first
          exact sourced.set law instant (accepted _ here) here first
      | delete key =>
        rw [LogCall.record, replayRecord_tombstone fits] at first
        cases first
        exact sourced.delete now key
    · simp only [first] at ok
      cases ok

end

end Engine

namespace Shard

def SnapOf (P : Primitives) (crypto : CryptoEngine) (store : Storage) (cs : List LogCall) : Prop :=
  store.disk.snap = none ∨
    ∃ entries, store.Snaps P crypto entries ∧ entries.NodupKeys ∧
      ∀ entry ∈ entries, Sourced P crypto cs entry

/-- A shard whose engine shows the map that the calls `cs` of its log make. -/
structure Mirrors (P : Primitives) (crypto : CryptoEngine) (now : Time) (s : Shard)
    (cs : List LogCall) : Prop where
  log : s.persistence.LogOf P crypto.walMode cs
  contents : SameFrom now (s.engine.contents P)
    (Update.applyAll (fun _ => none) (cs.map LogCall.update))
  sourced : s.engine.SourcedBy P crypto cs
  snap : SnapOf P crypto s.persistence cs

section
variable {P : Primitives} {crypto : CryptoEngine} {now : Time} {s : Shard} {cs : List LogCall}

theorem SnapOf.mono {store store' : Storage} {cs' : List LogCall}
    (snap : SnapOf P crypto store cs) (same : store'.disk.snap = store.disk.snap)
    (sub : cs ⊆ cs') : SnapOf P crypto store' cs' := by
  rcases snap with missing | ⟨entries, snaps, distinct, sourced⟩
  · exact Or.inl (same.trans missing)
  · refine Or.inr ⟨entries, ⟨same ▸ snaps.file, snaps.fits⟩, distinct, ?_⟩
    exact fun entry mem => (sourced entry mem).mono sub

theorem Mirrors.later {t : Time} (mirrors : s.Mirrors P crypto now cs) (le : now ≤ t) :
    s.Mirrors P crypto t cs :=
  ⟨mirrors.log, mirrors.contents.later le, mirrors.sourced, mirrors.snap⟩

theorem Mirrors.execute (law : P.Lawful) (mirrors : s.Mirrors P crypto now cs) {c : Request}
    (later : now ≤ c.now) (ok : (s.execute P c).2.err = none) :
    (s.execute P c).1.Mirrors P crypto c.now (cs ++ c.logged) := by
  have done := execute_ok mirrors.log.enabled ok
  obtain ⟨log, snap⟩ := done.log law mirrors.log
  have old : cs ⊆ cs ++ c.logged := List.subset_append_left _ _
  have grown : s.engine.SourcedBy P crypto (cs ++ c.logged) := mirrors.sourced.mono old
  constructor
  · exact log
  · refine (done.contents law).trans ?_
    rw [List.map_append, Update.applyAll_append]
    exact Update.sameFrom_applyAll (mirrors.contents.later later) _
  · generalize (s.execute P c).1 = s' at done log
    cases done with
    | get op => exact grown.get c.now c.key
    | set op logged stored =>
      have source : LogCall.write c.key c.value (expiry c.now c.ttl) ∈ cs ++ c.logged := by
        simp [Request.logged, op]
      exact (grown.get c.now c.key).set law rfl (log.accepts _ source) source stored
    | del op logged => exact grown.delete c.now c.key
  · exact mirrors.snap.mono snap old

theorem Mirrors.dump (mirrors : s.Mirrors P crypto now cs) (createdAt : Time) (order : MapOrder)
    (fork : Bool) :
    let dumped := s.persistence.dumpSnapshot P createdAt order fork s.engine
    dumped.2 = none ∧ Mirrors P crypto now ⟨s.engine, dumped.1⟩ cs := by
  obtain ⟨entries, opened, records⟩ := mirrors.log
  have next := opened.dumpSnapshot createdAt order fork s.engine
  obtain ⟨-, -, h, mode, logs⟩ := opened
  have visited : ∀ entry ∈ s.engine.forEach createdAt order, entry ∈ s.engine.items.entries :=
    fun entry mem => (Engine.mem_forEach.mp mem).1
  obtain ⟨ok, snaps⟩ := Storage.dumpSnapshot_snaps logs.handle mode order fork
    (fun entry mem => (mirrors.sourced.entries entry (visited entry mem)).fits)
  refine ⟨ok, ⟨entries, next, records⟩, mirrors.contents, mirrors.sourced, ?_⟩
  exact Or.inr ⟨_, snaps, Engine.forEach_nodupKeys,
    fun entry mem => mirrors.sourced.entries entry (visited entry mem)⟩

theorem Mirrors.finish (mirrors : s.Mirrors P crypto now cs) :
    s.persistence.finishSnapshot.2 = none ∧
      Mirrors P crypto now ⟨s.engine, s.persistence.finishSnapshot.1⟩ cs := by
  obtain ⟨entries, opened, records⟩ := mirrors.log
  have next := opened.finishSnapshot
  obtain ⟨-, -, h, -, logs⟩ := opened
  refine ⟨Storage.finishSnapshot_ok logs.handle, ⟨entries, next, records⟩, mirrors.contents,
    mirrors.sourced, ?_⟩
  exact mirrors.snap.mono (Storage.finishSnapshot_snap _) (List.Subset.refl _)

/-- At `now` no key is hidden behind an expired entry, and none ends at that instant. -/
structure Recovers (now : Time) (cs : List LogCall) : Prop where
  lit : ∀ k, ¬ Update.Shadowed now (cs.map LogCall.update) k
  apart : ∀ k v, LogCall.write k v (some now) ∉ cs

theorem Recovers.sameFrom (recovers : Recovers now cs) :
    SameFrom now (Update.replayAll now (fun _ => none) (cs.map LogCall.update))
      (Update.applyAll (fun _ => none) (cs.map LogCall.update)) := by
  intro t later k
  apply Update.view_replayAll later (recovers.lit k)
  intro v stored
  obtain ⟨c, mem, same⟩ := List.mem_map.mp (Update.mem_of_applyAll stored)
  cases c with
  | write key value expiration =>
    cases same
    exact recovers.apart k v mem
  | delete key => cases same

theorem SnapOf.load (law : P.Lawful) {store : Storage} (snap : SnapOf P crypto store cs)
    (dated : ∀ c ∈ cs, c.dated = true) {cfg : Config} {draws : Nat} {e : Engine}
    (ok : (store.opened crypto).loadSnapshot P now (newEngine cfg crypto draws) = (e, none)) :
    e.SourcedBy P crypto cs ∧
      ∀ entry ∈ e.items.entries, Update.survives now entry.2.expiration = true := by
  rcases snap with missing | ⟨entries, snaps, distinct, sourced⟩
  · have absent : (store.opened crypto).disk.snap = none := missing
    rw [loadSnapshot_missing P now absent] at ok
    cases ok
    refine ⟨⟨rfl, ?_⟩, ?_⟩
    · intro entry mem
      cases mem
    · intro entry mem
      cases mem
  · have opened : (store.opened crypto).Snaps P crypto entries := ⟨snaps.file, snaps.fits⟩
    rw [opened.load_eq law now _ rfl rfl, Prod.mk.injEq, Option.map_eq_none_iff] at ok
    obtain ⟨items, -, cipher, -⟩ := restore_entries
      (fun entry mem => (sourced entry mem).dated dated)
      (by simpa [newEngine, Engine.new] using distinct) (Engine.new_accounted _ _ _ _ _)
      (Prod.ext ok.1 ok.2)
    have members : ∀ entry ∈ e.items.entries, entry ∈ surviving now entries := by
      intro entry mem
      rw [items] at mem
      simpa [newEngine, Engine.new] using mem
    refine ⟨⟨cipher, ?_⟩, ?_⟩
    · intro entry mem
      exact sourced entry (List.mem_filter.mp (members entry mem)).1
    · intro entry mem
      exact (List.mem_filter.mp (members entry mem)).2

theorem loads_replayed (law : P.Lawful) {store : Storage} (snap : SnapOf P crypto store cs)
    (dated : ∀ c ∈ cs, c.dated = true) (accepted : ∀ c ∈ cs, crypto.walMode.accepts c = true)
    {cfg : Config} {draws : Nat} {e : Engine}
    (ok : loads P now (store.opened crypto) (newEngine cfg crypto draws)
      (cs.map LogCall.record) = (e, none)) :
    e.SourcedBy P crypto cs ∧
      e.contents P = Update.replayAll now (fun _ => none) (cs.map LogCall.update) := by
  simp only [loads] at ok
  rcases loaded : (store.opened crypto).loadSnapshot P now (newEngine cfg crypto draws) with
    ⟨e₁, _ | err⟩
  · simp only [loaded] at ok
    obtain ⟨sourced, alive⟩ := snap.load law dated loaded
    refine ⟨sourced.replay law (List.Subset.refl cs) dated accepted ok, ?_⟩
    have fits : ∀ c ∈ cs, c.record.Fits :=
      fun c mem => (WalMode.accepts_fits (accepted c mem) 0).record
    rw [replayRecords_contents law fits dated ok]
    funext k
    apply Update.replayAll_congr
    cases found : e₁.items.lookup k with
    | none => exact Or.inl (by simp [Engine.contents, decode, Engine.raw, found])
    | some item =>
      have entry : ⟨k, item⟩ ∈ e₁.items.entries := AList.mem_lookup_iff.mp found
      obtain ⟨v, -, mem, -⟩ := (sourced.entries _ entry).write
      have survives := alive _ entry
      refine Or.inr ⟨.set k v item.expiration, List.mem_map_of_mem mem, ?_⟩
      simpa [Update.settles] using survives
  · simp [loaded] at ok

theorem Mirrors.reloaded (law : P.Lawful) {t : Time} (mirrors : s.Mirrors P crypto t cs)
    (dated : ∀ c ∈ cs, c.dated = true) {order : MapOrder} {cfg : Config} {draws : Nat} {s' : Shard}
    (ok : run P now order cfg crypto draws s.persistence.crash = (s', none)) :
    s'.persistence.LogOf P crypto.walMode cs ∧ SnapOf P crypto s'.persistence cs ∧
      s'.engine.SourcedBy P crypto cs ∧
      s'.engine.contents P = Update.replayAll now (fun _ => none) (cs.map LogCall.update) := by
  obtain ⟨entries, opened, records⟩ := mirrors.log
  have spec := run_stores law (opened.stores (Or.inl rfl)) now order cfg draws
  rw [ok, records] at spec
  split at spec
  · obtain ⟨store, ran, done⟩ := spec
    injection ran with same none
    have loaded := none.symm
    rw [Option.map_eq_none_iff] at loaded
    obtain ⟨opened', snap⟩ := done loaded
    have crashed : SnapOf P crypto s.persistence.crash cs :=
      mirrors.snap.mono rfl (List.Subset.refl _)
    subst same
    exact ⟨⟨entries, opened', records⟩, mirrors.snap.mono snap (List.Subset.refl _),
      loads_replayed law crashed dated mirrors.log.accepts (Prod.ext rfl loaded)⟩
  · obtain ⟨err, ran⟩ := spec
    injection ran with _ failed
    cases failed

theorem Mirrors.restart (law : P.Lawful) {t : Time} (mirrors : s.Mirrors P crypto t cs)
    (dated : ∀ c ∈ cs, c.dated = true) (recovers : Recovers now cs) {order : MapOrder}
    {cfg : Config} {draws : Nat} {s' : Shard}
    (ok : run P now order cfg crypto draws s.persistence.crash = (s', none)) :
    s'.Mirrors P crypto now cs := by
  obtain ⟨log, snap, sourced, contents⟩ := mirrors.reloaded law dated ok
  refine ⟨log, ?_, sourced, snap⟩
  rw [contents]
  exact recovers.sameFrom

theorem Mirrors.restarts (law : P.Lawful) {t : Time} (mirrors : s.Mirrors P crypto t cs)
    (dated : ∀ c ∈ cs, c.dated = true)
    (clear : crypto.enabled = true ∨ magicClash (cs.map LogCall.record) = false) (now : Time)
    (order : MapOrder) {cfg : Config} (ceiling : maxBytes cfg = 0) (draws : Nat) :
    (run P now order cfg crypto draws s.persistence.crash).2 = none := by
  obtain ⟨entries, opened, records⟩ := mirrors.log
  have stores := opened.stores (Or.inl rfl)
  rw [← records] at clear
  have spec := run_stores law stores now order cfg draws
  rw [if_pos (stores.openable clear), records] at spec
  obtain ⟨store, ran, -⟩ := spec
  rw [ran, Option.map_eq_none_iff]
  have loaded : ∃ e, (s.persistence.crash.opened crypto).loadSnapshot P now
      (newEngine cfg crypto draws) = (e, none) ∧ e.maxBytes = 0 := by
    rcases mirrors.snap with missing | ⟨snapped, snaps, distinct, sourced⟩
    · have absent : (s.persistence.crash.opened crypto).disk.snap = none := missing
      exact ⟨_, loadSnapshot_missing P now absent _, ceiling⟩
    · have snaps' : (s.persistence.crash.opened crypto).Snaps P crypto snapped :=
        ⟨snaps.file, snaps.fits⟩
      have inTime : ∀ entry ∈ snapped,
          (LogCall.write entry.1 entry.2.value entry.2.expiration).dated = true :=
        fun entry mem => (sourced entry mem).dated dated
      have fresh : (newEngine cfg crypto draws).Accounted := Engine.new_accounted _ _ _ _ _
      have restored := restore_room P now inTime fresh (Or.inl ceiling)
      obtain ⟨-, -, -, same⟩ := restore_entries inTime
        (by simpa [newEngine, Engine.new] using distinct) fresh (Prod.ext rfl restored)
      refine ⟨_, ?_, same.trans ceiling⟩
      rw [snaps'.load_eq law now _ rfl rfl, restored]
      rfl
  obtain ⟨e, load, unbounded⟩ := loaded
  simp only [loads, load, replayRecords_unbounded P now unbounded]

theorem Mirrors.executeAll (law : P.Lawful) (mirrors : s.Mirrors P crypto now cs)
    {requests : List Request} {later : Time}
    (ordered : (now :: requests.map (·.now) ++ [later]).Pairwise (· ≤ ·))
    (ok : ∀ r ∈ (s.executeAll P requests).2, r.err = none) :
    (s.executeAll P requests).1.Mirrors P crypto later
      (cs ++ requests.flatMap Request.logged) := by
  induction requests generalizing s now cs with
  | nil =>
    have le : now ≤ later := by simpa using ordered
    simpa [Shard.executeAll] using mirrors.later le
  | cons c requests ih =>
    simp only [Shard.executeAll] at ok ⊢
    simp only [List.map_cons, List.cons_append] at ordered
    obtain ⟨first, rest⟩ := List.pairwise_cons.mp ordered
    have next := mirrors.execute law (first c.now List.mem_cons_self) (ok _ List.mem_cons_self)
    have final := ih next rest (fun r mem => ok r (List.mem_cons_of_mem _ mem))
    simpa [List.flatMap_cons] using final

theorem fresh_mirrors (law : P.Lawful) (shardID : Nat) (crypto : CryptoEngine) (now : Time)
    (order : MapOrder) (cfg : Config) (draws : Nat) :
    ∃ s, run P now order cfg crypto draws (.fresh shardID) = (s, none) ∧
      s.Mirrors P crypto now [] := by
  obtain ⟨store, started, log, snap⟩ := run_fresh law shardID crypto now order cfg draws
  refine ⟨_, started, log, SameFrom.refl _ _, ⟨rfl, ?_⟩, Or.inl snap⟩
  intro entry mem
  cases mem

theorem Mirrors.apart (mirrors : s.Mirrors P crypto now cs) {k : Bytes}
    (apart : ∀ v, s.engine.raw k ≠ some (v, some now)) (v : Bytes) :
    Update.applyAll (fun _ => none) (cs.map LogCall.update) k ≠ some (v, some now) := by
  intro stored
  have shown : view now (s.engine.contents P) k = some v := by
    rw [mirrors.contents now (Nat.le_refl _)]
    simp [view, stored, expired]
  have gone : view (now + 1) (s.engine.contents P) k = none := by
    rw [mirrors.contents (now + 1) (Nat.le_succ _)]
    simp [view, stored, expired]
  have last := eq_of_last_view shown gone
  simp only [Engine.contents, decode, Option.bind_eq_some_iff, Option.map_eq_some_iff,
    Prod.mk.injEq] at last
  obtain ⟨⟨w, exp⟩, raw, -, -, -, rfl⟩ := last
  exact apart w raw

end

end Shard

open Shard in
/-- A restart reads what the running shard would have read, provided no live entry is hidden
behind an expired one. -/
theorem recovery_equals_live {P : Primitives} (law : P.Lawful) (shardID : Nat) (cfg : Config)
    (ceiling : maxBytes cfg = 0) (crypto : CryptoEngine) (start T : Time)
    (order order' : MapOrder) (draws draws' : Nat) (requests : List Request)
    (ordered : (start :: requests.map (·.now) ++ [T]).Pairwise (· ≤ ·)) :
    let first := run P start order cfg crypto draws (.fresh shardID)
    let live := first.1.executeAll P requests
    let logged := requests.flatMap Request.logged
    (∀ r ∈ live.2, r.err = none) →
    (∀ l ∈ logged, l.dated = true) →
    (crypto.enabled = true ∨ magicClash (logged.map LogCall.record) = false) →
    (∀ k, ¬ Update.Shadowed T (logged.map LogCall.update) k) →
    let again := run P T order' cfg crypto draws' live.1.persistence.crash
    first.2 = none ∧ again.2 = none ∧
      ∀ k, (∀ v, live.1.engine.raw k ≠ some (v, some T)) →
        (again.1.engine.get P T k).2 = (live.1.engine.get P T k).2 := by
  obtain ⟨first, started, mirrors⟩ := fresh_mirrors law shardID crypto start order cfg draws
  simp only [started]
  intro ok dated clear lit
  have final := mirrors.executeAll law ordered ok
  rw [List.nil_append] at final
  have restarted := final.restarts law dated clear T order' ceiling draws'
  obtain ⟨-, -, -, contents⟩ := final.reloaded law dated (Prod.ext rfl restarted)
  refine ⟨trivial, restarted, ?_⟩
  intro k apart
  rw [Engine.get_result, Engine.get_result, Engine.read, Engine.read, contents,
    Update.view_replayAll (Nat.le_refl T) (lit k) (final.apart apart),
    final.contents T (Nat.le_refl _)]

open Shard in
/-- The key is set for good and then for twenty instants; the restart comes before
they are over. -/
theorem recovery_equals_live_before_expiry :
    let requests : List Request :=
      [.healthy 1 .set [107] [49] 0, .healthy 2 .set [107] [50] 20, .healthy 3 .del [120] [] 0]
    let first := run .tagged 0 .asStored .plain .passThrough 0 (.fresh 0)
    let live := first.1.executeAll .tagged requests
    let again := run .tagged 10 .asStored .plain .passThrough 0 live.1.persistence.crash
    (live.1.engine.get .tagged 10 [107]).2 = some [50] ∧
      (again.1.engine.get .tagged 10 [107]).2 = (live.1.engine.get .tagged 10 [107]).2 := by
  intro requests first live again
  constructor
  · decide +kernel
  · have spec := recovery_equals_live Primitives.tagged_lawful 0 .plain rfl .passThrough 0 10
      .asStored .asStored 0 0 requests (by decide)
    refine (spec (by decide +kernel) (by decide) (Or.inr (by decide)) ?_).2.2 [107] ?_
    · rintro k ⟨before, w, exp, between, v, e, after, log, -, -, past, -⟩
      have mem : Update.set k v (some e) ∈
          (requests.flatMap Request.logged).map LogCall.update := by
        rw [log]
        simp
      have only : e = 22 := by
        simp [requests, Request.logged, Request.healthy, LogCall.update, expiry] at mem
        exact mem.2.2
      omega
    · intro v
      have stored : live.1.engine.raw [107] = some ([50], some 22) := by decide +kernel
      rw [stored]
      simp

open Shard in
/-- Set for good and then for two instants: a restart brings the older value back. -/
theorem expired_overwrite_resurrects :
    let requests : List Request := [.healthy 1 .set [107] [49] 0, .healthy 2 .set [107] [50] 2]
    let first := run .tagged 0 .asStored .plain .passThrough 0 (.fresh 0)
    let live := first.1.executeAll .tagged requests
    let again := run .tagged 10 .asStored .plain .passThrough 0 live.1.persistence.crash
    (∀ r ∈ live.2, r.err = none) ∧ again.2 = none ∧
      (live.1.engine.get .tagged 10 [107]).2 = none ∧
      (again.1.engine.get .tagged 10 [107]).2 = some [49] := by
  decide +kernel

end Tellstone
