import Tellstone.Storage.Contents

/-! Active eviction. Other calls run between any two steps of the ticker goroutine, and none of
them can tell whether it ran. -/
namespace Tellstone
open ByteStream ExpiringMap

/-- Where the ticker goroutine stands inside `advance`. -/
inductive TickPhase where
  | idle
  | taken (slot : Nat) (batch : List Bytes)
  | deleting (batch : List Bytes)
  deriving DecidableEq, Repr

structure Machine where
  engine : Engine
  phase : TickPhase

inductive Call where
  | set (key value : Bytes) (ttl : Duration)
  | setFromBuffer (buf : Bytes) (keyLen : Int) (ttl : Duration)
  | setRaw (key value : Bytes) (ttl : Duration)
  | delete (key : Bytes)
  | get (key : Bytes)
  deriving DecidableEq, Repr

inductive Answer where
  | done (err : Option Error)
  | present (found : Bool)
  | value (found : Option Bytes)
  deriving DecidableEq, Repr

/-- A call from outside, or one step of the ticker goroutine. -/
inductive EngineEvent where
  | call (c : Call)
  | tick
  deriving DecidableEq, Repr

def Engine.call (P : Primitives) (now : Time) (e : Engine) : Call → Engine × Answer
  | .set key value ttl =>
    let r := e.set P now key value ttl
    (r.1, .done r.2)
  | .setFromBuffer buf keyLen ttl =>
    let r := e.setFromBuffer P now buf keyLen ttl
    (r.1, .done r.2)
  | .setRaw key value ttl =>
    let r := e.setRaw now key value ttl
    (r.1, .done r.2)
  | .delete key =>
    let r := e.delete now key
    (r.1, .present r.2)
  | .get key =>
    let r := e.get P now key
    (r.1, .value r.2)

namespace Machine

def start (e : Engine) : Machine := ⟨e, .idle⟩

/-- One step of `advance`: the slot is emptied, the wheel moves on, and each key is tried. -/
def tick (now : Time) (m : Machine) : Machine :=
  match m.engine.chronometer with
  | .noOp => m
  | .wheel c =>
    match m.phase with
    | .idle =>
      let (batch, c') := c.takeSlot
      ⟨{ m.engine with chronometer := .wheel c' }, .taken c.curSlot batch⟩
    | .taken slot batch =>
      ⟨{ m.engine with chronometer := .wheel (c.storeSlot slot) }, .deleting batch⟩
    | .deleting [] => ⟨m.engine, .idle⟩
    | .deleting (key :: batch) => ⟨(m.engine.deleteIfExpired now key).1, .deleting batch⟩

def step (P : Primitives) (now : Time) (m : Machine) : EngineEvent → Machine × Option Answer
  | .call c =>
    let r := m.engine.call P now c
    (⟨r.1, m.phase⟩, some r.2)
  | .tick => (m.tick now, none)

def run (P : Primitives) : Machine → List (Time × EngineEvent) → Machine × List Answer
  | m, [] => (m, [])
  | m, (now, event) :: rest =>
    let (m', answer) := m.step P now event
    let (last, answers) := run P m' rest
    (last, answer.toList ++ answers)

end Machine

namespace Engine

section
variable {P : Primitives} {now : Time} {e : Engine}

@[simp] theorem register_draws (key : Bytes) (ttl : Duration) :
    (e.register key ttl).draws = e.draws := by
  unfold register; split <;> rfl

theorem set_draws {key value : Bytes} {ttl : Duration} (room : e.maxBytes = 0) :
    (e.set P now key value ttl).1.draws = if e.crypto.enabled then e.draws + 1 else e.draws := by
  simp only [set, full_eq_false_of_unbounded room, Bool.false_eq_true, ↓reduceIte]
  split <;> simp [put]

theorem remove_draws (key : Bytes) (item : Item) : (e.remove key item).draws = e.draws := rfl

theorem deleteIfExpired_draws (key : Bytes) : (e.deleteIfExpired now key).1.draws = e.draws := by
  unfold deleteIfExpired
  cases e.items.lookup key with
  | none => rfl
  | some item => cases gone : expired now item.expiration <;> simp [gone, remove_draws]

theorem delete_draws (key : Bytes) : (e.delete now key).1.draws = e.draws := by
  unfold delete
  cases e.items.lookup key with
  | none => rfl
  | some item => cases gone : expired now item.expiration <;> simp [gone, remove_draws]

theorem get_draws (key : Bytes) : (e.get P now key).1.draws = e.draws := by
  unfold get
  cases e.items.lookup key with
  | none => rfl
  | some item =>
    simp only
    split
    · split <;> simp [deleteIfExpired_draws]
    · split
      · split <;> rfl
      · rfl

end

/-- What calls from one side of the comparison and the other have in common. -/
structure Twin (now : Time) (a b : Engine) : Prop where
  same : SameFrom now a.raw b.raw
  crypto : a.crypto = b.crypto
  draws : a.draws = b.draws
  unboundedLeft : a.maxBytes = 0
  unboundedRight : b.maxBytes = 0

theorem Twin.later {now next : Time} {a b : Engine} (h : Twin now a b) (le : now ≤ next) :
    Twin next a b :=
  ⟨h.same.later le, h.crypto, h.draws, h.unboundedLeft, h.unboundedRight⟩

section
variable {P : Primitives} {now : Time} {a b : Engine}

theorem Twin.set (h : Twin now a b) (key value : Bytes) (ttl : Duration) :
    Twin now (a.set P now key value ttl).1 (b.set P now key value ttl).1 ∧
      (a.set P now key value ttl).2 = (b.set P now key value ttl).2 := by
  have roomA (size : Nat) := full_eq_false_of_unbounded h.unboundedLeft size
  have roomB (size : Nat) := full_eq_false_of_unbounded h.unboundedRight size
  refine ⟨⟨?_, by simp [h.crypto], ?_, by simp [h.unboundedLeft], by simp [h.unboundedRight]⟩, ?_⟩
  · rw [raw_insert (set_items (roomA _)), raw_insert (set_items (roomB _)), h.crypto, h.draws]
    exact h.same.put _ _ _
  · rw [set_draws h.unboundedLeft, set_draws h.unboundedRight, h.crypto, h.draws]
  · rw [set_err, set_err, roomA, roomB]

theorem Twin.put (h : Twin now a b) (key value : Bytes) (exp : Option Time) (ttl : Duration) :
    Twin now ((a.put key value exp).register key ttl) ((b.put key value exp).register key ttl) := by
  refine ⟨?_, by simp [h.crypto], by simp [Engine.put, h.draws], by simp [h.unboundedLeft],
    by simp [h.unboundedRight]⟩
  have stored (e : Engine) : ((e.put key value exp).register key ttl).raw =
      ExpiringMap.put e.raw key value exp := raw_insert (by simp)
  rw [stored a, stored b]
  exact h.same.put _ _ _

theorem Twin.setFromBuffer (h : Twin now a b) (buf : Bytes) (keyLen : Int) (ttl : Duration) :
    Twin now (a.setFromBuffer P now buf keyLen ttl).1 (b.setFromBuffer P now buf keyLen ttl).1 ∧
      (a.setFromBuffer P now buf keyLen ttl).2 = (b.setFromBuffer P now buf keyLen ttl).2 := by
  simp only [Engine.setFromBuffer, full_eq_false_of_unbounded h.unboundedLeft,
    full_eq_false_of_unbounded h.unboundedRight, Bool.false_eq_true, ↓reduceIte, h.crypto]
  split
  · exact ⟨h, rfl⟩
  · split
    · exact h.set _ _ _
    · exact ⟨h.put _ _ _ _, rfl⟩

theorem Twin.setRaw (h : Twin now a b) (key value : Bytes) (ttl : Duration) :
    Twin now (a.setRaw now key value ttl).1 (b.setRaw now key value ttl).1 ∧
      (a.setRaw now key value ttl).2 = (b.setRaw now key value ttl).2 := by
  have roomA (size : Nat) := full_eq_false_of_unbounded h.unboundedLeft size
  have roomB (size : Nat) := full_eq_false_of_unbounded h.unboundedRight size
  refine ⟨⟨?_, by simp [h.crypto], ?_, by simp [h.unboundedLeft], by simp [h.unboundedRight]⟩, ?_⟩
  · rw [raw_insert (setRaw_items (roomA _)), raw_insert (setRaw_items (roomB _))]
    exact h.same.put _ _ _
  · simp [Engine.setRaw, roomA, roomB, Engine.put, h.draws]
  · simp [Engine.setRaw, roomA, roomB]

theorem Twin.delete (h : Twin now a b) (key : Bytes) :
    Twin now (a.delete now key).1 (b.delete now key).1 ∧
      (a.delete now key).2 = (b.delete now key).2 := by
  refine ⟨⟨?_, by simp [h.crypto], ?_, by simp [h.unboundedLeft], by simp [h.unboundedRight]⟩, ?_⟩
  · rw [raw_erase (delete_items now a key), raw_erase (delete_items now b key)]
    exact h.same.erase key
  · rw [delete_draws, delete_draws, h.draws]
  · rw [delete_result, delete_result, h.same now (Nat.le_refl now) key]

theorem Twin.get (h : Twin now a b) (key : Bytes) :
    Twin now (a.get P now key).1 (b.get P now key).1 ∧
      (a.get P now key).2 = (b.get P now key).2 := by
  refine ⟨⟨?_, by simp [h.crypto], ?_, by simp [h.unboundedLeft], by simp [h.unboundedRight]⟩, ?_⟩
  · exact (get_sameFrom P now a key).trans (h.same.trans (get_sameFrom P now b key).symm)
  · rw [get_draws, get_draws, h.draws]
  · rw [get_result, get_result, read_eq, read_eq, h.crypto, h.same now (Nat.le_refl now) key]

theorem Twin.call (h : Twin now a b) (c : Call) :
    Twin now (a.call P now c).1 (b.call P now c).1 ∧ (a.call P now c).2 = (b.call P now c).2 := by
  cases c with
  | set key value ttl =>
    obtain ⟨twin, err⟩ := h.set (P := P) key value ttl
    exact ⟨twin, congrArg Answer.done err⟩
  | setFromBuffer buf keyLen ttl =>
    obtain ⟨twin, err⟩ := h.setFromBuffer (P := P) buf keyLen ttl
    exact ⟨twin, congrArg Answer.done err⟩
  | setRaw key value ttl =>
    obtain ⟨twin, err⟩ := h.setRaw key value ttl
    exact ⟨twin, congrArg Answer.done err⟩
  | delete key =>
    obtain ⟨twin, found⟩ := h.delete key
    exact ⟨twin, congrArg Answer.present found⟩
  | get key =>
    obtain ⟨twin, found⟩ := h.get (P := P) key
    exact ⟨twin, congrArg Answer.value found⟩

end

end Engine

namespace Machine

theorem tick_sameFrom (now : Time) (m : Machine) :
    SameFrom now (m.tick now).engine.raw m.engine.raw := by
  unfold tick
  split
  · exact SameFrom.refl _ _
  · split
    · exact SameFrom.refl _ _
    · exact SameFrom.refl _ _
    · exact SameFrom.refl _ _
    · exact Engine.deleteIfExpired_sameFrom _ _ _

theorem tick_frame (now : Time) (m : Machine) :
    (m.tick now).engine.crypto = m.engine.crypto ∧
    (m.tick now).engine.draws = m.engine.draws ∧
    (m.tick now).engine.maxBytes = m.engine.maxBytes := by
  unfold tick
  split
  · exact ⟨rfl, rfl, rfl⟩
  · split
    · exact ⟨rfl, rfl, rfl⟩
    · exact ⟨rfl, rfl, rfl⟩
    · exact ⟨rfl, rfl, rfl⟩
    · exact ⟨Engine.deleteIfExpired_crypto _ _ _, Engine.deleteIfExpired_draws _,
        Engine.deleteIfExpired_maxBytes _ _ _⟩

theorem tick_keeps (now : Time) (m : Machine) (key : Bytes) (item : Item)
    (found : m.engine.items.lookup key = some item) (live : expired now item.expiration = false) :
    (m.tick now).engine.items.lookup key = some item := by
  unfold tick
  split
  · exact found
  · split
    · exact found
    · exact found
    · exact found
    · rename_i victim batch _
      simp only [Engine.deleteIfExpired]
      split
      · exact found
      · rename_i old hit
        split
        · rename_i gone
          by_cases same : key = victim
          · subst same
            rw [found] at hit
            cases hit
            rw [live] at gone
            cases gone
          · rw [Engine.remove_items, AList.lookup_erase_ne same, found]
        · exact found

theorem twin_tick {now : Time} {m n : Machine} (h : Engine.Twin now m.engine n.engine) :
    Engine.Twin now (m.tick now).engine (n.tick now).engine := by
  obtain ⟨cryptoM, drawsM, maxM⟩ := tick_frame now m
  obtain ⟨cryptoN, drawsN, maxN⟩ := tick_frame now n
  exact ⟨(tick_sameFrom now m).trans (h.same.trans (tick_sameFrom now n).symm),
    by rw [cryptoM, cryptoN, h.crypto], by rw [drawsM, drawsN, h.draws],
    by rw [maxM, h.unboundedLeft], by rw [maxN, h.unboundedRight]⟩

theorem twin_step (P : Primitives) {now : Time} {m n : Machine}
    (h : Engine.Twin now m.engine n.engine) (event : EngineEvent) :
    Engine.Twin now (m.step P now event).1.engine (n.step P now event).1.engine ∧
      (m.step P now event).2 = (n.step P now event).2 := by
  cases event with
  | call c =>
    obtain ⟨twin, answer⟩ := h.call (P := P) c
    exact ⟨twin, congrArg some answer⟩
  | tick => exact ⟨twin_tick h, rfl⟩

theorem twin_run (P : Primitives) (events : List (Time × EngineEvent))
    (clock : (events.map Prod.fst).Pairwise (· ≤ ·)) {start last : Time} {m n : Machine}
    (h : Engine.Twin start m.engine n.engine) (begins : start ≤ last)
    (first : ∀ e ∈ events, start ≤ e.1) (ends : ∀ e ∈ events, e.1 ≤ last) :
    Engine.Twin last (m.run P events).1.engine (n.run P events).1.engine ∧
      (m.run P events).2 = (n.run P events).2 := by
  induction events generalizing start m n with
  | nil => exact ⟨h.later begins, rfl⟩
  | cons e events ih =>
    obtain ⟨now, event⟩ := e
    obtain ⟨least, clock⟩ := List.pairwise_cons.mp (by simpa only [List.map_cons] using clock)
    have at_now := h.later (first _ List.mem_cons_self)
    obtain ⟨twin, answer⟩ := twin_step P at_now event
    obtain ⟨twin, answers⟩ := ih clock twin (ends _ List.mem_cons_self)
      (fun e he => least _ (List.mem_map_of_mem he))
      (fun e he => ends e (List.mem_cons_of_mem _ he))
    exact ⟨twin, by simp only [run, answer, answers]⟩

end Machine

theorem exists_last {α : Type} (events : List (Time × α)) : ∃ last, ∀ e ∈ events, e.1 ≤ last := by
  induction events with
  | nil => exact ⟨0, by simp⟩
  | cons e events ih =>
    obtain ⟨last, ends⟩ := ih
    refine ⟨max e.1 last, fun x hx => ?_⟩
    rcases List.mem_cons.mp hx with rfl | hx
    · exact Nat.le_max_left _ _
    · exact Nat.le_trans (ends x hx) (Nat.le_max_right _ _)

/-- Every answer of an engine with a running wheel is that of the engine without one, and no tick
takes an entry that has not expired. -/
theorem active_eviction_invisible (P : Primitives) (interval : Duration) (numSlots : Nat)
    (crypto : CryptoEngine) (draws : Nat)
    (events : List (Time × EngineEvent)) (clock : (events.map Prod.fst).Pairwise (· ≤ ·)) :
    let wheel := (Machine.start (.new interval numSlots 0 crypto draws)).run P events
    let noOp := (Machine.start (.new 0 0 0 crypto draws)).run P events
    wheel.2 = noOp.2 ∧
    (∀ last, (∀ e ∈ events, e.1 ≤ last) → SameFrom last wheel.1.engine.raw noOp.1.engine.raw) ∧
    (∀ now key item, wheel.1.engine.items.lookup key = some item →
      expired now item.expiration = false →
      (wheel.1.tick now).engine.items.lookup key = some item) := by
  have fresh : Engine.Twin 0 (Engine.new interval numSlots 0 crypto draws)
      (Engine.new 0 0 0 crypto draws) := ⟨SameFrom.refl _ _, rfl, rfl, rfl, rfl⟩
  have agree (last : Time) (ends : ∀ e ∈ events, e.1 ≤ last) :=
    Machine.twin_run P events clock (m := .start (.new interval numSlots 0 crypto draws))
      (n := .start (.new 0 0 0 crypto draws)) fresh (Nat.zero_le last)
      (fun _ _ => Nat.zero_le _) ends
  refine ⟨?_, fun last ends => (agree last ends).1.same, fun now key item => ?_⟩
  · obtain ⟨last, ends⟩ := exists_last events
    exact (agree last ends).2
  · exact Machine.tick_keeps now _ key item

theorem active_eviction_invisible_refreshed :
    let events : List (Time × EngineEvent) :=
      [(0, .call (.set [107] [49] 5)), (1, .call (.set [107] [50] 0)), (9, .tick), (9, .tick),
        (9, .tick), (14, .tick), (14, .tick), (14, .tick), (14, .tick), (15, .call (.get [107]))]
    ((Machine.start (.new 5 4 0 .passThrough 0)).run .tagged events).2 =
        ((Machine.start (.new 0 0 0 .passThrough 0)).run .tagged events).2 ∧
      ((Machine.start (.new 5 4 0 .passThrough 0)).run .tagged events).2.getLast? =
        some (.value (some [50])) :=
  ⟨(active_eviction_invisible .tagged 5 4 .passThrough 0 _ (by decide)).1, by decide +kernel⟩

end Tellstone
