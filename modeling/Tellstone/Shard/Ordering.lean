import Tellstone.Shard

/-! Concurrent writers of one shard. Execute appends under the shard mutex and
updates the map under the engine mutex, with nothing held in between. -/
namespace Tellstone
open ByteStream ExpiringMap

namespace Shard

def append (P : Primitives) (s : Shard) (c : Request) : Shard × Except Error Bool :=
  match c.op with
  | .set =>
    let (engine, existing) := s.engine.get P c.now c.key
    match if s.persistence.enabled then
        s.persistence.write P c.fault c.key c.value (expiry c.now c.ttl)
      else (s.persistence, none) with
    | (store, some err) => (⟨engine, store⟩, .error err)
    | (store, none) => (⟨engine, store⟩, .ok existing.isSome)
  | .del =>
    match if s.persistence.enabled then s.persistence.delete P c.fault c.key
      else (s.persistence, none) with
    | (store, some err) => (⟨s.engine, store⟩, .error err)
    | (store, none) => (⟨s.engine, store⟩, .ok true)
  | _ => (s, .ok true)

def update (P : Primitives) (s : Shard) (c : Request) (keyExisted : Bool) : Shard × Response :=
  match c.op with
  | .set =>
    match s.engine.set P c.now c.key c.value c.ttl with
    | (engine, some err) =>
      let store :=
        if s.persistence.enabled && !keyExisted then
          (s.persistence.delete P c.undoFault c.key).1
        else s.persistence
      (⟨engine, store⟩, ⟨none, false, some err⟩)
    | (engine, none) => (⟨engine, s.persistence⟩, ⟨none, true, none⟩)
  | .del =>
    let (engine, found) := s.engine.delete c.now c.key
    (⟨engine, s.persistence⟩, ⟨none, found, none⟩)
  | _ => s.execute P c

theorem execute_eq (P : Primitives) (s : Shard) (c : Request) :
    s.execute P c =
      match s.append P c with
      | (s', .error err) => (s', ⟨none, false, some err⟩)
      | (s', .ok keyExisted) => s'.update P c keyExisted := by
  unfold execute append update
  cases op : c.op with
  | set =>
    simp only
    generalize (if s.persistence.enabled then
        s.persistence.write P c.fault c.key c.value (expiry c.now c.ttl)
      else (s.persistence, none)) = appended
    obtain ⟨store, _ | err⟩ := appended
    · rfl
    · rfl
  | del =>
    simp only
    generalize (if s.persistence.enabled then s.persistence.delete P c.fault c.key
      else (s.persistence, none)) = appended
    obtain ⟨store, _ | err⟩ := appended
    · rfl
    · rfl
  | _ => simp [execute, op]

end Shard

/-- Requests in flight, in the order of their appends, and the responses so far. -/
structure Race where
  shard : Shard
  pending : List (Request × Bool)
  responses : List Response

/-- A request makes its append, or the n-th request in flight makes its update. -/
inductive RaceStep where
  | append (c : Request)
  | update (n : Nat)

namespace Race

def step (P : Primitives) (r : Race) : RaceStep → Race
  | .append c =>
    match r.shard.append P c with
    | (s, .error err) => ⟨s, r.pending, r.responses ++ [⟨none, false, some err⟩]⟩
    | (s, .ok keyExisted) => ⟨s, r.pending ++ [(c, keyExisted)], r.responses⟩
  | .update n =>
    match r.pending[n]? with
    | none => r
    | some (c, keyExisted) =>
      let (s, response) := r.shard.update P c keyExisted
      ⟨s, r.pending.eraseIdx n, r.responses ++ [response]⟩

def run (P : Primitives) : Race → List RaceStep → Race
  | r, [] => r
  | r, step :: steps => run P (r.step P step) steps

def orderly (r : Race) : RaceStep → Bool
  | .append _ => true
  | .update n =>
    match r.pending[n]? with
    | none => true
    | some (c, _) => (r.pending.take n).all fun p => decide (p.1.key ≠ c.key)

def orderlyRun (P : Primitives) : Race → List RaceStep → Bool
  | _, [] => true
  | r, step :: steps => r.orderly step && orderlyRun P (r.step P step) steps

end Race

namespace Shard

section
variable {P : Primitives} {s s' : Shard} {c : Request} {keyExisted : Bool}

theorem append_ok (enabled : s.persistence.enabled = true) (write : c.plainWrite = true)
    (timeless : s.engine.Timeless) (ok : s.append P c = (s', .ok keyExisted)) :
    ∃ l, c.logged = [l] ∧ l.update.key = c.key ∧
      s.persistence.log P c.fault l = (s'.persistence, none) ∧
      s'.engine.items = s.engine.items ∧ s'.engine.crypto = s.engine.crypto := by
  unfold append at ok
  cases op : c.op with
  | set =>
    refine ⟨.write c.key c.value (expiry c.now c.ttl), by simp [Request.logged, op], rfl, ?_⟩
    simp only [op, enabled, ↓reduceIte] at ok
    rcases logged : s.persistence.write P c.fault c.key c.value (expiry c.now c.ttl) with
      ⟨store, _ | err⟩
    · simp only [logged, Prod.mk.injEq] at ok
      obtain ⟨rfl, -⟩ := ok
      exact ⟨logged, timeless.get_items, Engine.get_crypto P c.now s.engine c.key⟩
    · simp [logged] at ok
  | del =>
    refine ⟨.delete c.key, by simp [Request.logged, op], rfl, ?_⟩
    simp only [op, enabled, ↓reduceIte] at ok
    rcases logged : s.persistence.delete P c.fault c.key with ⟨store, _ | err⟩
    · simp only [logged, Prod.mk.injEq] at ok
      obtain ⟨rfl, -⟩ := ok
      exact ⟨logged, rfl, rfl⟩
    · simp [logged] at ok
  | _ => simp [Request.plainWrite, op] at write

theorem update_ok (law : P.Lawful) (write : c.plainWrite = true) (timeless : s.engine.Timeless)
    (ok : (s.update P c keyExisted).2.err = none) :
    (s.update P c keyExisted).1.persistence = s.persistence ∧
      (s.update P c keyExisted).1.engine.Timeless ∧
      (s.update P c keyExisted).1.engine.contents P =
        Update.applyAll (s.engine.contents P) (c.logged.map LogCall.update) := by
  simp only [Request.plainWrite, Bool.and_eq_true, Bool.or_eq_true, decide_eq_true_eq] at write
  unfold update at ok ⊢
  cases op : c.op with
  | set =>
    simp only [op] at ok ⊢
    rcases stored : s.engine.set P c.now c.key c.value c.ttl with ⟨engine, _ | err⟩
    · refine ⟨rfl, timeless.set write.2 stored, ?_⟩
      simp only [Request.logged, op]
      exact Engine.contents_set_ok law stored
    · simp [stored] at ok
  | del =>
    refine ⟨rfl, timeless.delete, ?_⟩
    simp only [Request.logged, op]
    exact Engine.contents_delete P c.now s.engine c.key
  | _ => simp [op] at write

end

end Shard

namespace Race

def inFlight (pending : List (Request × Bool)) : List (Update Bytes Bytes) :=
  pending.flatMap fun p => p.1.logged.map LogCall.update

/-- On every key the map has taken in the log up to the requests in flight. -/
structure Ordered (P : Primitives) (crypto : CryptoEngine) (r : Race) (cs : List LogCall) :
    Prop where
  log : r.shard.persistence.LogOf P crypto.walMode cs
  forever : ∀ c ∈ cs, ∀ k v exp, c = .write k v exp → exp = none
  timeless : r.shard.engine.Timeless
  writes : ∀ p ∈ r.pending, p.1.plainWrite = true
  behind : ∀ k, ∃ past,
    Update.onKey k (cs.map LogCall.update) = past ++ Update.onKey k (inFlight r.pending) ∧
    r.shard.engine.contents P k = Update.applyAll (fun _ => none) past k

section
variable {P : Primitives} {crypto : CryptoEngine} {r : Race} {cs : List LogCall}

theorem Ordered.append (law : P.Lawful) (held : r.Ordered P crypto cs) {c : Request}
    (write : c.plainWrite = true) {s : Shard} {keyExisted : Bool}
    (ok : r.shard.append P c = (s, .ok keyExisted)) :
    Ordered P crypto ⟨s, r.pending ++ [(c, keyExisted)], r.responses⟩ (cs ++ c.logged) := by
  obtain ⟨l, logs, key, logged, items, same⟩ :=
    Shard.append_ok held.log.enabled write held.timeless ok
  obtain ⟨l', logs', -, forever⟩ := Request.plainWrite_logged write
  obtain rfl : l = l' := by simpa [logs] using logs'
  have raw : s.engine.raw = r.shard.engine.raw := Engine.raw_congr items
  constructor
  · rw [logs]
    exact held.log.log law logged
  · intro d mem
    rw [logs] at mem
    rcases List.mem_append.mp mem with old | new
    · exact held.forever d old
    · rw [List.mem_singleton.mp new]
      exact forever
  · exact held.timeless.of_raw_eq raw
  · intro p mem
    rcases List.mem_append.mp mem with old | new
    · exact held.writes p old
    · rw [List.mem_singleton.mp new]
      exact write
  · intro k
    obtain ⟨past, log, contents⟩ := held.behind k
    refine ⟨past, ?_, ?_⟩
    · simp [inFlight, List.map_append, Update.onKey_append, log]
    · rw [Engine.contents, raw, same]
      exact contents

theorem Ordered.update (law : P.Lawful) (held : r.Ordered P crypto cs) {n : Nat} {c : Request}
    {keyExisted : Bool} (found : r.pending[n]? = some (c, keyExisted))
    (first : ∀ p ∈ r.pending.take n, p.1.key ≠ c.key)
    (ok : (r.shard.update P c keyExisted).2.err = none) :
    Ordered P crypto ⟨(r.shard.update P c keyExisted).1, r.pending.eraseIdx n,
      r.responses ++ [(r.shard.update P c keyExisted).2]⟩ cs := by
  have pending : r.pending = r.pending.take n ++ (c, keyExisted) :: r.pending.drop (n + 1) := by
    obtain ⟨bound, same⟩ := List.getElem?_eq_some_iff.mp found
    rw [← same, ← List.drop_eq_getElem_cons bound, List.take_append_drop]
  have write : c.plainWrite = true := held.writes (c, keyExisted) (List.mem_of_getElem? found)
  obtain ⟨l, logs, key, -⟩ := Request.plainWrite_logged write
  obtain ⟨kept, timeless, contents⟩ := Shard.update_ok law write held.timeless ok
  have others : Update.onKey c.key (inFlight (r.pending.take n)) = [] := by
    apply Update.onKey_eq_nil
    intro u mem
    obtain ⟨p, before, logged⟩ := List.mem_flatMap.mp mem
    obtain ⟨l', logs', key', -⟩ :=
      Request.plainWrite_logged (held.writes p (List.mem_of_mem_take before))
    simp only [logs', List.map_cons, List.map_nil, List.mem_singleton] at logged
    rw [logged, key']
    exact first p before
  rw [logs, List.map_cons, List.map_nil] at contents
  constructor
  · simp only [kept]
    exact held.log
  · exact held.forever
  · exact timeless
  · intro p mem
    exact held.writes p (List.mem_of_mem_eraseIdx mem)
  · intro k
    obtain ⟨past, log, holds⟩ := held.behind k
    rw [pending, inFlight, List.flatMap_append, List.flatMap_cons, ← inFlight, ← inFlight, logs,
      List.map_cons, List.map_nil] at log
    simp only [List.eraseIdx_eq_take_drop_succ, contents]
    rw [inFlight, List.flatMap_append, ← inFlight, ← inFlight]
    by_cases same : c.key = k
    · subst same
      refine ⟨past ++ [l.update], ?_, ?_⟩
      · rw [← key] at others log ⊢
        rw [log]
        simp [Update.onKey_append, others, Update.onKey_cons_self]
      · rw [Update.applyAll_concat, ← key]
        exact Update.apply_at_key _ _ l.update
    · have other : l.update.key ≠ k := by rwa [key]
      refine ⟨past, ?_, ?_⟩
      · rw [log]
        simp only [Update.onKey_append, Update.onKey_cons_of_ne other, Update.onKey_nil,
          List.nil_append]
      · rw [← holds]
        exact Update.apply_of_ne _ other

theorem Ordered.step (law : P.Lawful) (held : r.Ordered P crypto cs) {step : RaceStep}
    (write : ∀ c, step = .append c → c.plainWrite = true) (orderly : r.orderly step = true)
    (ok : ∀ x ∈ (r.step P step).responses, x.err = none) :
    ∃ cs', (r.step P step).Ordered P crypto cs' := by
  cases step with
  | append c =>
    simp only [Race.step] at ok ⊢
    rcases ran : r.shard.append P c with ⟨s, err | keyExisted⟩
    · simp only [ran] at ok
      have failed := ok ⟨none, false, some err⟩ (by simp)
      cases failed
    · exact ⟨_, held.append law (write c rfl) ran⟩
  | update n =>
    simp only [Race.step, Race.orderly] at ok orderly ⊢
    cases found : r.pending[n]? with
    | none => exact ⟨cs, held⟩
    | some p =>
      obtain ⟨c, keyExisted⟩ := p
      simp only [found, List.all_eq_true, decide_eq_true_eq] at ok orderly ⊢
      exact ⟨cs, held.update law found orderly (ok _ (by simp))⟩

theorem step_responses (P : Primitives) (r : Race) (step : RaceStep) :
    r.responses <+: (r.step P step).responses := by
  cases step with
  | append c =>
    simp only [Race.step]
    split
    · exact List.prefix_append _ _
    · exact List.prefix_refl _
  | update n =>
    simp only [Race.step]
    split
    · exact List.prefix_refl _
    · exact List.prefix_append _ _

theorem run_responses (P : Primitives) (r : Race) (steps : List RaceStep) :
    r.responses <+: (r.run P steps).responses := by
  induction steps generalizing r with
  | nil => exact List.prefix_refl _
  | cons step steps ih => exact (step_responses P r step).trans (ih _)

theorem Ordered.run (law : P.Lawful) (held : r.Ordered P crypto cs) {steps : List RaceStep}
    (writes : ∀ c, .append c ∈ steps → c.plainWrite = true)
    (orderly : orderlyRun P r steps = true)
    (ok : ∀ x ∈ (Race.run P r steps).responses, x.err = none) :
    ∃ cs', (Race.run P r steps).Ordered P crypto cs' := by
  induction steps generalizing r cs with
  | nil => exact ⟨cs, held⟩
  | cons step steps ih =>
    simp only [orderlyRun, Bool.and_eq_true] at orderly
    simp only [Race.run] at ok ⊢
    have earlier : ∀ x ∈ (r.step P step).responses, x.err = none :=
      fun x mem => ok x ((run_responses P _ steps).subset mem)
    have write : ∀ c, step = .append c → c.plainWrite = true := by
      rintro c rfl
      exact writes c List.mem_cons_self
    obtain ⟨cs', next⟩ := held.step law write orderly.1 earlier
    exact ih next (fun c mem => writes c (List.mem_cons_of_mem _ mem)) orderly.2 ok

theorem Ordered.settled (held : r.Ordered P crypto cs) (idle : r.pending = []) :
    r.shard.engine.contents P =
      Update.applyAll (fun _ => none) (cs.map LogCall.update) := by
  funext k
  obtain ⟨past, log, contents⟩ := held.behind k
  rw [idle, inFlight, List.flatMap_nil, Update.onKey_nil, List.append_nil] at log
  rw [contents, ← log, Update.applyAll_onKey]

end

end Race

open Shard in
/-- Over any interleaving in which updates of one key keep the order of their appends, a replay
gives the map in memory. -/
theorem replay_equals_memory {P : Primitives} (law : P.Lawful) (shardID : Nat) (cfg : Config)
    (ceiling : maxBytes cfg = 0) (crypto : CryptoEngine) (start : Time) (order : MapOrder)
    (draws : Nat) (steps : List RaceStep)
    (writes : ∀ c, .append c ∈ steps → c.plainWrite = true) :
    let first := Shard.run P start order cfg crypto draws (.fresh shardID)
    let race := Race.run P ⟨first.1, [], []⟩ steps
    Race.orderlyRun P ⟨first.1, [], []⟩ steps = true →
    race.pending = [] →
    (∀ x ∈ race.responses, x.err = none) →
    ∀ (ctr : UInt64) (now : Time) (draws' : Nat),
      let replayed := (race.shard.persistence.reopened ctr).replayWAL P now
        (newEngine cfg crypto draws')
      replayed.err = none ∧
        ∀ k, (replayed.engine.get P now k).2 = (race.shard.engine.get P now k).2 := by
  obtain ⟨store, started, log, -⟩ := run_fresh law shardID crypto start order cfg draws
  simp only [started]
  intro orderly idle ok ctr now draws'
  have initial : Race.Ordered P crypto ⟨⟨newEngine cfg crypto draws, store⟩, [], []⟩ [] := by
    refine ⟨log, by simp, ?_, by simp, ?_⟩
    · intro k x found
      cases found
    · exact fun k => ⟨[], rfl, rfl⟩
  obtain ⟨cs, held⟩ := initial.run law writes orderly ok
  have dated : ∀ c ∈ cs, c.dated = true := by
    intro c mem
    cases c with
    | write k v exp =>
      rw [held.forever _ mem k v exp rfl]
      rfl
    | delete k => rfl
  have alive : ∀ k v exp, .set k v exp ∈ cs.map LogCall.update → Update.survives now exp = true := by
    intro k v exp mem
    obtain ⟨c, at_c, same⟩ := List.mem_map.mp mem
    cases c with
    | write k' v' exp' =>
      cases same
      rw [held.forever _ at_c k v exp rfl]
      rfl
    | delete k' => cases same
  obtain ⟨done, contents⟩ := held.log.replayWAL law dated ctr
    (replayRecords_unbounded P now (e := newEngine cfg crypto draws') ceiling _)
  refine ⟨done, fun k => ?_⟩
  rw [Engine.get_result, Engine.get_result, Engine.read, Engine.read, contents,
    Update.replayAll_of_survives alive, held.settled idle]
  rfl

open Shard in
theorem replay_equals_memory_two_keys :
    let steps : List RaceStep :=
      [.append (.healthy 1 .set [107] [49] 0), .append (.healthy 1 .set [106] [50] 0),
        .append (.healthy 1 .set [107] [51] 0), .update 1, .update 0, .update 0]
    let first := Shard.run .tagged 0 .asStored .plain .passThrough 0 (.fresh 0)
    let race := Race.run .tagged ⟨first.1, [], []⟩ steps
    let replayed := (race.shard.persistence.reopened 0).replayWAL .tagged 5
      (newEngine .plain .passThrough 0)
    (race.shard.engine.get .tagged 5 [107]).2 = some [51] ∧
      (replayed.engine.get .tagged 5 [107]).2 = (race.shard.engine.get .tagged 5 [107]).2 := by
  intro steps
  have writes : ∀ c, .append c ∈ steps → c.plainWrite = true := by
    intro c mem
    simp only [steps, List.mem_cons, RaceStep.append.injEq, reduceCtorEq, List.not_mem_nil,
      or_false] at mem
    rcases mem with rfl | rfl | rfl <;> rfl
  have spec := replay_equals_memory Primitives.tagged_lawful 0 .plain rfl .passThrough 0
    .asStored 0 steps writes (by decide +kernel)
    (List.length_eq_zero_iff.mp (by decide +kernel)) (by decide +kernel) 0 5 0
  exact ⟨by decide +kernel, spec.2 [107]⟩

open Shard in
theorem overtaken_update_diverges :
    let steps : List RaceStep :=
      [.append (.healthy 1 .set [107] [49] 0), .append (.healthy 1 .set [107] [50] 0),
        .update 1, .update 0]
    let first := Shard.run .tagged 0 .asStored .plain .passThrough 0 (.fresh 0)
    let race := Race.run .tagged ⟨first.1, [], []⟩ steps
    let replayed := (race.shard.persistence.reopened 0).replayWAL .tagged 5
      (newEngine .plain .passThrough 0)
    race.pending.length = 0 ∧ (∀ x ∈ race.responses, x.err = none) ∧ replayed.err = none ∧
      (race.shard.engine.get .tagged 5 [107]).2 = some [49] ∧
      (replayed.engine.get .tagged 5 [107]).2 = some [50] := by
  decide +kernel

end Tellstone
