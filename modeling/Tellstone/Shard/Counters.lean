import Tellstone.Shard.Ordering
import Tellstone.Storage.Counters

/-! The counters of reads of a shard that executes requests of many goroutines. A SET reads the
old value first, with the same Get as a GET. -/
namespace Tellstone
open ByteStream ExpiringMap

def Look.hit : Look (Option Bytes) → Bool
  | .answered (some _) => true
  | _ => false

namespace Engine

section
variable (P : Primitives) (now : Time) (e : Engine) (key : Bytes)

theorem look_hits : (e.look P now key).1.hitCount =
    e.hitCount + if (e.look P now key).2.hit then 1 else 0 := by
  unfold look
  split
  · rfl
  · split
    · rfl
    · split
      · split <;> rfl
      · rfl

theorem look_misses : (e.look P now key).1.missCount =
    e.missCount + if e.items.lookup key = none then 1 else 0 := by
  unfold look
  cases e.items.lookup key with
  | none => rfl
  | some item =>
    simp only
    split
    · rfl
    · split
      · split <;> rfl
      · rfl

theorem look_absent (absent : e.items.lookup key = none) :
    (e.look P now key).2 = .answered none := by
  simp only [look, absent]

end

end Engine

namespace Engine

structure SameReads (e e' : Engine) : Prop where
  hits : e'.hitCount = e.hitCount
  misses : e'.missCount = e.missCount

section
variable (now : Time) (e : Engine) (key : Bytes)

theorem set_reads (P : Primitives) (value : Bytes) (ttl : Duration) :
    e.SameReads (e.set P now key value ttl).1 :=
  ⟨congrArg Counts.hits (set_counts key value ttl), congrArg Counts.misses (set_counts key value ttl)⟩

theorem delete_reads : e.SameReads (e.delete now key).1 :=
  ⟨congrArg Counts.hits (delete_counts now e key), congrArg Counts.misses (delete_counts now e key)⟩

theorem deleteIfExpired_reads : e.SameReads (e.deleteIfExpired now key).1 :=
  ⟨congrArg Counts.hits (deleteIfExpired_counts key),
    congrArg Counts.misses (deleteIfExpired_counts key)⟩

theorem evict_reads : e.SameReads (e.evict now key) :=
  ⟨congrArg Counts.hits (evict_counts now e key), congrArg Counts.misses (evict_counts now e key)⟩

end

end Engine

abbrev Reader := { c : Request // c.op = .get ∨ c.op = .set }

abbrev Writer := { c : Request // c.op = .set ∨ c.op = .del }

/-- The read found the entry over; it is to append; it is to update the map. `exp` was worked out
at the start. -/
inductive Stage where
  | evicting (c : Reader) (exp : Option Time)
  | appending (c : Writer) (exp : Option Time) (keyExisted : Bool)
  | updating (c : Writer) (keyExisted : Bool)

/-- A shard, its ticker, the requests in flight, and what the GETs have returned. -/
structure Service where
  shard : Shard
  phase : TickPhase
  flight : List Stage
  answers : List (Option Bytes)

/-- A request begins, the n-th in flight takes a step, or the ticker takes one. -/
inductive ServiceStep where
  | begin (c : Request)
  | advance (now : Time) (n : Nat)
  | tick (now : Time)

def Shard.persist (P : Primitives) (s : Shard) (c : Writer) (exp : Option Time) :
    Shard × Option Error :=
  if s.persistence.enabled then
    let logged :=
      if c.1.op = .set then s.persistence.write P c.1.fault c.1.key c.1.value exp
      else s.persistence.delete P c.1.fault c.1.key
    (⟨s.engine, logged.1⟩, logged.2)
  else (s, none)

namespace Shard

theorem persist_engine (P : Primitives) (s : Shard) (c : Writer) (exp : Option Time) :
    (s.persist P c exp).1.engine = s.engine := by
  unfold persist
  split <;> rfl

theorem update_reads (P : Primitives) (now : Time) (s : Shard) (c : Writer) (keyExisted : Bool) :
    s.engine.SameReads (s.update P { c.1 with now := now } keyExisted).1.engine := by
  obtain ⟨c, op | op⟩ := c
  · have reads := s.engine.set_reads now c.key P c.value c.ttl
    simp only [update, op]
    rcases stored : s.engine.set P now c.key c.value c.ttl with ⟨engine, _ | err⟩
    · rwa [stored] at reads
    · rwa [stored] at reads
  · simp only [update, op]
    exact s.engine.delete_reads now c.key

end Shard

theorem Machine.tick_reads (now : Time) (m : Machine) : m.engine.SameReads (m.tick now).engine := by
  unfold tick
  split
  · exact ⟨rfl, rfl⟩
  · split
    · exact ⟨rfl, rfl⟩
    · exact ⟨rfl, rfl⟩
    · exact ⟨rfl, rfl⟩
    · exact m.engine.deleteIfExpired_reads now _

namespace Service

def start (s : Shard) : Service := ⟨s, .idle, [], []⟩

def withEngine (s : Service) (e : Engine) : Service :=
  { s with shard := ⟨e, s.shard.persistence⟩ }

def begin (P : Primitives) (s : Service) (c : Request) : Service :=
  let look := s.shard.engine.look P c.now c.key
  if op : c.op = .get then
    match look with
    | (e, .answered v) => { s.withEngine e with answers := s.answers ++ [v] }
    | (e, .over) =>
      { s.withEngine e with flight := s.flight ++ [.evicting ⟨c, .inl op⟩ none] }
  else if op : c.op = .set then
    let exp := expiry c.now c.ttl
    match look with
    | (e, .answered v) =>
      { s.withEngine e with flight := s.flight ++ [.appending ⟨c, .inl op⟩ exp v.isSome] }
    | (e, .over) =>
      { s.withEngine e with flight := s.flight ++ [.evicting ⟨c, .inr op⟩ exp] }
  else if op : c.op = .del then
    { s with flight := s.flight ++ [.appending ⟨c, .inr op⟩ none true] }
  else s

def advance (P : Primitives) (now : Time) (s : Service) (n : Nat) : Service :=
  match s.flight[n]? with
  | none => s
  | some (.evicting c exp) =>
    let evicted := s.withEngine (s.shard.engine.evict now c.1.key)
    if read : c.1.op = .get then
      { evicted with flight := s.flight.eraseIdx n, answers := s.answers ++ [none] }
    else
      { evicted with
        flight := s.flight.set n (.appending ⟨c.1, .inl (c.2.resolve_left read)⟩ exp false) }
  | some (.appending c exp keyExisted) =>
    match s.shard.persist P c exp with
    | (shard, some _) => { s with shard := shard, flight := s.flight.eraseIdx n }
    | (shard, none) => { s with shard := shard, flight := s.flight.set n (.updating c keyExisted) }
  | some (.updating c keyExisted) =>
    { s with
      shard := (s.shard.update P { c.1 with now := now } keyExisted).1
      flight := s.flight.eraseIdx n }

def tick (now : Time) (s : Service) : Service :=
  let m := Machine.tick now ⟨s.shard.engine, s.phase⟩
  { s.withEngine m.engine with phase := m.phase }

def step (P : Primitives) (s : Service) : ServiceStep → Service
  | .begin c => s.begin P c
  | .advance now n => s.advance P now n
  | .tick now => s.tick now

def run (P : Primitives) (s : Service) (steps : List ServiceStep) : Service :=
  steps.foldl (step P) s

def setHit (P : Primitives) (s : Service) : ServiceStep → Nat
  | .begin c => if c.op = .set ∧ (s.shard.engine.look P c.now c.key).2.hit then 1 else 0
  | _ => 0

def setMiss (s : Service) : ServiceStep → Nat
  | .begin c => if c.op = .set ∧ s.shard.engine.items.lookup c.key = none then 1 else 0
  | _ => 0

/-- A GET returns nothing though it found an entry, expired or not to be decrypted. -/
def staleGet (P : Primitives) (s : Service) : ServiceStep → Nat
  | .begin c =>
    if c.op = .get ∧ s.shard.engine.items.lookup c.key ≠ none ∧
      (s.shard.engine.look P c.now c.key).2 = .answered none then 1 else 0
  | .advance _ n =>
    match s.flight[n]? with
    | some (.evicting c _) => if c.1.op = .get then 1 else 0
    | _ => 0
  | .tick _ => 0

def total (P : Primitives) (count : Service → ServiceStep → Nat) :
    Service → List ServiceStep → Nat
  | _, [] => 0
  | s, step :: rest => count s step + total P count (s.step P step) rest

def found (s : Service) : Nat := s.answers.countP Option.isSome

def absent (s : Service) : Nat := s.answers.countP Option.isNone

section
variable (P : Primitives) (s : Service)

structure Counted (step : ServiceStep) : Prop where
  hits : (s.step P step).shard.engine.hitCount + s.found =
    s.shard.engine.hitCount + (s.step P step).found + s.setHit P step
  misses : (s.step P step).shard.engine.missCount + s.absent + s.staleGet P step =
    s.shard.engine.missCount + (s.step P step).absent + s.setMiss step

theorem Counted.of_silent {step : ServiceStep}
    (reads : s.shard.engine.SameReads (s.step P step).shard.engine)
    (answers : (s.step P step).answers = s.answers)
    (noHit : s.setHit P step = 0) (noMiss : s.setMiss step = 0)
    (noStale : s.staleGet P step = 0) : s.Counted P step := by
  constructor
  · rw [reads.hits, found, found, answers, noHit]
    rfl
  · rw [reads.misses, absent, absent, answers, noMiss, noStale]

theorem get_counted {c : Request} (op : c.op = .get) : s.Counted P (.begin c) := by
  have next : (s.step P (.begin c)).shard.engine = (s.shard.engine.look P c.now c.key).1 ∧
      (s.step P (.begin c)).found =
        s.found + (if (s.shard.engine.look P c.now c.key).2.hit then 1 else 0) ∧
      (s.step P (.begin c)).absent = s.absent +
        if (s.shard.engine.look P c.now c.key).2 = .answered none then 1 else 0 := by
    simp only [Service.step, Service.begin, dif_pos op]
    rcases s.shard.engine.look P c.now c.key with ⟨e, (_ | v) | _⟩ <;>
      simp [found, absent, withEngine, Look.hit]
  constructor
  · rw [next.1, next.2.1, Engine.look_hits]
    simp only [setHit, op, reduceCtorEq, false_and, ↓reduceIte]
    omega
  · rw [next.1, next.2.2, Engine.look_misses]
    by_cases gone : s.shard.engine.items.lookup c.key = none
    · simp [setMiss, staleGet, op, gone, s.shard.engine.look_absent P c.now c.key gone]
      omega
    · simp [setMiss, staleGet, op, gone]
      omega

theorem set_counted {c : Request} (op : c.op = .set) : s.Counted P (.begin c) := by
  have get : c.op ≠ .get := by simp [op]
  have next : (s.step P (.begin c)).shard.engine = (s.shard.engine.look P c.now c.key).1 ∧
      (s.step P (.begin c)).answers = s.answers := by
    simp only [Service.step, Service.begin, dif_neg get, dif_pos op]
    rcases s.shard.engine.look P c.now c.key with ⟨e, v | _⟩ <;> exact ⟨rfl, rfl⟩
  constructor
  · rw [next.1, found, found, next.2, Engine.look_hits]
    simp only [setHit, op, true_and]
    omega
  · rw [next.1, absent, absent, next.2, Engine.look_misses]
    simp only [setMiss, staleGet, op, reduceCtorEq, false_and, true_and, ↓reduceIte]
    omega

theorem begin_counted (c : Request) : s.Counted P (.begin c) := by
  by_cases get : c.op = .get
  · exact s.get_counted P get
  · by_cases set : c.op = .set
    · exact s.set_counted P set
    · have other : (s.begin P c).shard = s.shard ∧ (s.begin P c).answers = s.answers := by
        simp only [Service.begin, dif_neg get, dif_neg set]
        split <;> exact ⟨rfl, rfl⟩
      refine .of_silent P s ?_ other.2 ?_ ?_ ?_
      · rw [show s.step P (.begin c) = s.begin P c from rfl, other.1]
        exact ⟨rfl, rfl⟩
      · simp [setHit, set]
      · simp [setMiss, set]
      · simp [staleGet, get]

theorem evict_counted {now : Time} {n : Nat} {c : Reader} {exp : Option Time}
    (here : s.flight[n]? = some (.evicting c exp)) : s.Counted P (.advance now n) := by
  have reads := s.shard.engine.evict_reads now c.1.key
  by_cases read : c.1.op = .get
  · constructor
    · simp [Service.step, Service.advance, here, read, withEngine, reads.hits, found, setHit]
    · simp [Service.step, Service.advance, here, read, withEngine, reads.misses, absent, setMiss,
        staleGet]
      omega
  · refine .of_silent P s ?_ ?_ rfl rfl ?_
    · simpa [Service.step, Service.advance, here, read, withEngine] using reads
    · simp [Service.step, Service.advance, here, read, withEngine]
    · simp [staleGet, here, read]

theorem advance_counted (now : Time) (n : Nat) : s.Counted P (.advance now n) := by
  cases here : s.flight[n]? with
  | none =>
    have still : s.step P (.advance now n) = s := by
      simp only [Service.step, Service.advance, here]
    exact .of_silent P s (by rw [still]; exact ⟨rfl, rfl⟩) (by rw [still]) rfl rfl
      (by simp [staleGet, here])
  | some stage =>
    cases stage with
    | evicting c exp => exact s.evict_counted P here
    | appending c exp keyExisted =>
      have kept := s.shard.persist_engine P c exp
      have next : (s.step P (.advance now n)).shard = (s.shard.persist P c exp).1 ∧
          (s.step P (.advance now n)).answers = s.answers := by
        simp only [Service.step, Service.advance, here]
        rcases s.shard.persist P c exp with ⟨shard, _ | err⟩ <;> exact ⟨rfl, rfl⟩
      exact .of_silent P s (by rw [next.1, kept]; exact ⟨rfl, rfl⟩) next.2 rfl rfl
        (by simp [staleGet, here])
    | updating c keyExisted =>
      have next : s.step P (.advance now n) = { s with
          shard := (s.shard.update P { c.1 with now := now } keyExisted).1
          flight := s.flight.eraseIdx n } := by
        simp only [Service.step, Service.advance, here]
      refine .of_silent P s ?_ (by rw [next]) rfl rfl (by simp [staleGet, here])
      rw [next]
      exact s.shard.update_reads P now c keyExisted

theorem tick_counted (now : Time) : s.Counted P (.tick now) := by
  have reads := Machine.tick_reads now ⟨s.shard.engine, s.phase⟩
  exact .of_silent P s reads rfl rfl rfl rfl

theorem step_counted (step : ServiceStep) : s.Counted P step := by
  cases step with
  | begin c => exact s.begin_counted P c
  | advance now n => exact s.advance_counted P now n
  | tick now => exact s.tick_counted P now

theorem run_counted (steps : List ServiceStep) :
    (s.run P steps).shard.engine.hitCount + s.found =
        s.shard.engine.hitCount + (s.run P steps).found + s.total P (setHit P) steps ∧
      (s.run P steps).shard.engine.missCount + s.absent + s.total P (staleGet P) steps =
        s.shard.engine.missCount + (s.run P steps).absent + s.total P setMiss steps := by
  induction steps generalizing s with
  | nil => exact ⟨rfl, rfl⟩
  | cons step steps ih =>
    obtain ⟨hits, misses⟩ := ih (s.step P step)
    have first := s.step_counted P step
    have first_hits := first.hits
    have first_misses := first.misses
    have next : s.run P (step :: steps) = (s.step P step).run P steps := rfl
    rw [next]
    simp only [total]
    constructor <;> omega

end

end Service

/-- The counters of reads count the GETs exactly when no SET read a value, and the SETs that found
nothing are as many as the GETs that found an entry expired or not to be decrypted. -/
theorem read_counters_iff (P : Primitives) (shard : Shard) (steps : List ServiceStep) :
    let s := Service.start shard
    let s' := s.run P steps
    s'.shard.engine.hitCount = shard.engine.hitCount + s'.answers.countP Option.isSome ∧
        s'.shard.engine.missCount = shard.engine.missCount + s'.answers.countP Option.isNone ↔
      s.total P (Service.setHit P) steps = 0 ∧
        s.total P Service.setMiss steps = s.total P (Service.staleGet P) steps := by
  intro s s'
  obtain ⟨hits, misses⟩ := s.run_counted P steps
  change s'.shard.engine.hitCount + 0 = shard.engine.hitCount +
    s'.answers.countP Option.isSome + _ at hits
  change s'.shard.engine.missCount + 0 + _ = shard.engine.missCount +
    s'.answers.countP Option.isNone + _ at misses
  omega

/-- One SET of a new key is a miss, and another SET of it a hit, without any GET. -/
theorem set_counts_as_read :
    let shard : Shard := ⟨.new 0 0 0 .passThrough 0, false, 0, .empty, none, []⟩
    let set (now : Time) : List ServiceStep :=
      [.begin (.healthy now .set [97] [1] 0), .advance now 0, .advance now 0]
    let s' := (Service.start shard).run .tagged (set 1 ++ set 2)
    s'.flight.length = 0 ∧ s'.answers = [] ∧ s'.shard.engine.missCount = 1 ∧
      s'.shard.engine.hitCount = 1 := by
  decide +kernel

end Tellstone
