import Tellstone.Shard.Recovery

/-! Snapshots of a running shard. Writers go on between the serialization of the engine and the
truncation of the log. -/
namespace Tellstone
open ByteStream ExpiringMap Framing

/-- The two halves of Snapshot are apart, so that requests can come between them. -/
inductive Event where
  | execute (c : Request)
  | dump (now : Time) (order : MapOrder) (fork : Bool)
  | finish
  | restart (now : Time) (order : MapOrder) (draws : Nat)

namespace Event

def times : Event → List Time
  | .execute c => [c.now]
  | .dump now _ _ => [now]
  | .finish => []
  | .restart now _ _ => [now]

def logged : Event → List LogCall
  | .execute c => c.logged
  | _ => []

end Event

namespace Shard

def event (P : Primitives) (cfg : Config) (crypto : CryptoEngine) (s : Shard) :
    Event → Shard × Option Error
  | .execute c =>
    let (s, response) := s.execute P c
    (s, response.err)
  | .dump now order fork =>
    let (store, err) := s.persistence.dumpSnapshot P now order fork s.engine
    (⟨s.engine, store⟩, err)
  | .finish =>
    let (store, err) := s.persistence.finishSnapshot
    (⟨s.engine, store⟩, err)
  | .restart now order draws => run P now order cfg crypto draws s.persistence.crash

def events (P : Primitives) (cfg : Config) (crypto : CryptoEngine) :
    Shard → List Event → Shard × List (Option Error)
  | s, [] => (s, [])
  | s, event :: rest =>
    let (s, err) := s.event P cfg crypto event
    let (s, errs) := events P cfg crypto s rest
    (s, err :: errs)

def Recoverable : List LogCall → List Event → Prop
  | _, [] => True
  | cs, .restart now _ _ :: rest => Recovers now cs ∧ Recoverable cs rest
  | cs, event :: rest => Recoverable (cs ++ event.logged) rest

section
variable {P : Primitives} {crypto : CryptoEngine} {now : Time} {s : Shard} {cs : List LogCall}

theorem Mirrors.events (law : P.Lawful) {cfg : Config} (mirrors : s.Mirrors P crypto now cs)
    {events : List Event} {later : Time}
    (ordered : (now :: events.flatMap Event.times ++ [later]).Pairwise (· ≤ ·))
    (ok : ∀ err ∈ (s.events P cfg crypto events).2, err = none)
    (dated : ∀ c ∈ cs ++ events.flatMap Event.logged, c.dated = true)
    (recoverable : Recoverable cs events) :
    (s.events P cfg crypto events).1.Mirrors P crypto later
      (cs ++ events.flatMap Event.logged) := by
  induction events generalizing s now cs with
  | nil =>
    have le : now ≤ later := by simpa using ordered
    simpa [Shard.events] using mirrors.later le
  | cons event events ih =>
    simp only [Shard.events, List.flatMap_cons] at ok ordered dated ⊢
    have first := ok _ List.mem_cons_self
    have rest : ∀ err ∈ ((s.event P cfg crypto event).1.events P cfg crypto events).2, err = none :=
      fun err mem => ok err (List.mem_cons_of_mem _ mem)
    rw [← List.append_assoc] at dated ⊢
    cases event with
    | execute c =>
      simp only [Event.times, List.cons_append, List.nil_append] at ordered
      obtain ⟨le, ordered⟩ := List.pairwise_cons.mp ordered
      exact ih (mirrors.execute law (le c.now List.mem_cons_self) first) ordered rest dated
        recoverable
    | dump t order fork =>
      simp only [Event.times, List.cons_append, List.nil_append] at ordered
      obtain ⟨le, ordered⟩ := List.pairwise_cons.mp ordered
      have next := (mirrors.later (le t List.mem_cons_self)).dump t order fork
      simp only [Event.logged, List.append_nil] at dated ⊢
      exact ih next.2 ordered rest dated (by simpa [Recoverable, Event.logged] using recoverable)
    | finish =>
      simp only [Event.times, List.nil_append] at ordered
      simp only [Event.logged, List.append_nil] at dated ⊢
      exact ih mirrors.finish.2 ordered rest dated
        (by simpa [Recoverable, Event.logged] using recoverable)
    | restart t order draws =>
      simp only [Event.times, List.cons_append, List.nil_append] at ordered
      obtain ⟨le, ordered⟩ := List.pairwise_cons.mp ordered
      simp only [Event.logged, List.append_nil] at dated ⊢
      have old : ∀ c ∈ cs, c.dated = true := fun c mem => dated c (List.mem_append_left _ mem)
      exact ih (mirrors.restart law old recoverable.1 (Prod.ext rfl first)) ordered rest dated
        recoverable.2

end

end Shard

open Shard in
/-- Snapshot drops no record that is appended while it runs, and a restart shows the live map. The
log is down to what came since the serialization exactly when it was empty then. -/
theorem snapshot_then_replay {P : Primitives} (law : P.Lawful) (shardID : Nat) (cfg : Config)
    (crypto : CryptoEngine) (start createdAt T : Time) (order order' order'' : MapOrder)
    (fork : Bool) (draws draws' : Nat) (events : List Event) (requests : List Request)
    (ordered : (start :: events.flatMap Event.times ++ [createdAt]).Pairwise (· ≤ ·))
    (ordered' : (createdAt :: requests.map (·.now) ++ [T]).Pairwise (· ≤ ·)) :
    let first := run P start order cfg crypto draws (.fresh shardID)
    let before := first.1.events P cfg crypto events
    let dumped := before.1.persistence.dumpSnapshot P createdAt order' fork before.1.engine
    let during := Shard.executeAll P ⟨before.1.engine, dumped.1⟩ requests
    let after := during.1.persistence.finishSnapshot
    let logged := events.flatMap Event.logged ++ requests.flatMap Request.logged
    (∀ err ∈ before.2, err = none) → (∀ r ∈ during.2, r.err = none) →
    (∀ l ∈ logged, l.dated = true) → Recoverable [] events → Recovers T logged →
    dumped.2 = none ∧ after.2 = none ∧
    (∃ appended, during.1.persistence.wal = before.1.persistence.wal ++ appended ∧
      after.1.wal = during.1.persistence.wal ∧
      (after.1.wal = crypto.walMode.magic ++ appended ↔
        before.1.persistence.wal = crypto.walMode.magic)) ∧
    let again := run P T order'' cfg crypto draws' after.1.crash
    (maxBytes cfg = 0 →
      (crypto.enabled = true ∨ magicClash (logged.map LogCall.record) = false) → again.2 = none) ∧
    (again.2 = none →
      ∀ k, (again.1.engine.get P T k).2 = (during.1.engine.get P T k).2) := by
  obtain ⟨first, started, fresh⟩ := fresh_mirrors law shardID crypto start order cfg draws
  simp only [started]
  intro ok ok' dated recoverable recovers
  have before := fresh.events law ordered ok
    (fun c mem => dated c (List.mem_append_left _ (by simpa using mem))) recoverable
  rw [List.nil_append] at before
  obtain ⟨dumped, dumping⟩ := before.dump createdAt order' fork
  have during := dumping.executeAll law ordered' ok'
  obtain ⟨finished, after⟩ := during.finish
  refine ⟨dumped, finished, ?_, ?_, ?_⟩
  · obtain ⟨entries, opened, -⟩ := dumping.log
    obtain ⟨written, appended⟩ := executeAll_wal law opened requests
    simp only [Storage.dumpSnapshot_wal] at appended
    refine ⟨written, appended, Storage.finishSnapshot_wal _, ?_⟩
    rw [Storage.finishSnapshot_wal, appended, List.append_cancel_right_eq]
  · intro ceiling clear
    exact after.restarts law dated clear T order'' ceiling draws'
  · intro restarted k
    have again := after.restart law dated recovers (Prod.ext rfl restarted)
    rw [Engine.get_result, Engine.get_result, Engine.read, Engine.read,
      again.contents T (Nat.le_refl T), during.contents T (Nat.le_refl T)]

open Shard in
/-- A shard that has logged nothing is dumped, and written to before the truncation. -/
theorem snapshot_then_replay_empty :
    let first := run .tagged 0 .asStored .plain .passThrough 0 (.fresh 0)
    let dumped := first.1.persistence.dumpSnapshot .tagged 1 .asStored false first.1.engine
    let during := Shard.executeAll .tagged ⟨first.1.engine, dumped.1⟩
      [.healthy 2 .set [107] [49] 0]
    let after := during.1.persistence.finishSnapshot
    let again := run .tagged 5 .asStored .plain .passThrough 0 after.1.crash
    after.1.wal = (Record.set [107] [49] none).bytes ∧ again.2 = none ∧
      (again.1.engine.get .tagged 5 [107]).2 = (during.1.engine.get .tagged 5 [107]).2 := by
  have spec := snapshot_then_replay Primitives.tagged_lawful 0 .plain .passThrough 0 1 5
    .asStored .asStored .asStored false 0 0 [] [.healthy 2 .set [107] [49] 0] (by decide)
    (by decide) (by decide +kernel) (by decide +kernel) (by decide) trivial
    ⟨by
      rintro k ⟨before, w, exp, between, v, e, after, log, -⟩
      have size := congrArg List.length log
      simp [Request.logged, Request.healthy] at size
      omega,
    by simp [Request.logged, Request.healthy, expiry]⟩
  exact ⟨by decide +kernel, by decide +kernel, spec.2.2.2.2 (by decide +kernel) [107]⟩

open Shard in
theorem snapshot_leaves_covered_record :
    let first := run .tagged 0 .asStored .plain .passThrough 0 (.fresh 0)
    let s := (first.1.execute .tagged (.healthy 1 .set [107] [49] 0)).1
    let snapped := s.persistence.snapshot .tagged 2 .asStored false s.engine
    snapped.2 = none ∧ snapped.1.wal = (Record.set [107] [49] none).bytes := by
  decide +kernel

end Tellstone
