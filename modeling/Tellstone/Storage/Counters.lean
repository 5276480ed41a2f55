import Tellstone.Storage.Buffer
import Tellstone.Storage.Eviction

/-! What the counters of an engine count. Calls of other goroutines and the ticker run between the
two halves of a read. -/
namespace Tellstone
open ByteStream ExpiringMap

namespace Engine

def evict (now : Time) (e : Engine) (key : Bytes) : Engine :=
  let (e, evicted) := e.deleteIfExpired now key
  if evicted then { e with expiredCount := e.expiredCount + 1 } else e

section
variable (P : Primitives) (now : Time) (e : Engine) (key : Bytes)

theorem get_halves : e.get P now key =
    match e.look P now key with
    | (e', .answered v) => (e', v)
    | (e', .over) => (e'.evict now key, none) := by
  unfold get look evict
  cases e.items.lookup key with
  | none => rfl
  | some item =>
    simp only
    by_cases gone : expired now item.expiration = true
    · rw [if_pos gone, if_pos gone]
    · rw [if_neg gone, if_neg gone]
      by_cases enabled : e.crypto.enabled = true
      · rw [if_pos enabled, if_pos enabled]
        cases e.crypto.decryptInPlace P item.value <;> rfl
      · rw [if_neg enabled, if_neg enabled]

theorem getInto_halves (buf : Buffer) : e.getInto P now buf key =
    match e.lookInto P now buf key with
    | (e', .answered (buf', n)) => ⟨e', buf', n⟩
    | (e', .over) => ⟨e'.evict now key, buf, none⟩ := by
  unfold getInto lookInto evict
  cases e.items.lookup key with
  | none => rfl
  | some item =>
    simp only
    by_cases gone : expired now item.expiration = true
    · rw [if_pos gone, if_pos gone]
    · rw [if_neg gone, if_neg gone]
      by_cases enabled : e.crypto.enabled = true
      · rw [if_pos enabled, if_pos enabled]
        cases (e.crypto.decryptInPlaceWithDst P buf.array item.value).2 <;> rfl
      · rw [if_neg enabled, if_neg enabled]
        split <;> rfl

end

end Engine

/-- The entries of `before` with the property whose keys are gone in `after`. -/
def lost (property : Item → Bool) (before after : Items) : Nat :=
  before.entries.countP fun entry => property entry.2 && (after.lookup entry.1).isNone

theorem lost_same (property : Item → Bool) (items : Items) : lost property items items = 0 := by
  rw [lost, List.countP_eq_zero]
  intro entry mem
  have found : items.lookup entry.1 = some entry.2 := AList.mem_lookup_iff.mpr mem
  simp [found]

theorem lost_erase (property : Item → Bool) {items : Items} {key : Bytes} {item : Item}
    (found : items.lookup key = some item) :
    lost property items (items.erase key) = if property item then 1 else 0 := by
  have here : (⟨key, item⟩ : Sigma fun _ : Bytes => Item) ∈ items.entries :=
    AList.mem_lookup_iff.mp found
  obtain ⟨front, back, split⟩ := List.append_of_mem here
  have once := items.nodupKeys
  rw [split, List.perm_nodupKeys List.perm_middle, List.nodupKeys_cons] at once
  have kept : ∀ entry ∈ front ++ back, ((items.erase key).lookup entry.1).isNone = false := by
    intro entry mem
    have other : entry.1 ≠ key := by
      intro same
      have again : entry.1 ∈ (front ++ back).keys := List.mem_keys_of_mem mem
      exact once.1 (same ▸ again)
    have there : entry ∈ items.entries := by
      rw [split]
      exact List.perm_middle.mem_iff.mpr (List.mem_cons_of_mem _ mem)
    have lookup : items.lookup entry.1 = some entry.2 := AList.mem_lookup_iff.mpr there
    simp [AList.lookup_erase_ne other, lookup]
  have others : (front ++ back).countP
      (fun entry => property entry.2 && ((items.erase key).lookup entry.1).isNone) = 0 := by
    rw [List.countP_eq_zero]
    intro entry mem
    simp [kept entry mem]
  rw [lost, split, List.perm_middle.countP_eq, List.countP_cons, others]
  simp

def TimelineWheel.expiredCount : TimelineWheel → Nat
  | .noOp => 0
  | .wheel c => c.expiredCount

@[simp] theorem TimelineWheel.register_expiredCount (w : TimelineWheel) (key : Bytes)
    (ttl : Duration) : (w.register key ttl).expiredCount = w.expiredCount := by
  cases w with
  | noOp => rfl
  | wheel c =>
    simp only [register, expiredCount, Chronometer.register]
    split <;> rfl

/-- The counters of reads, of the evictions of calls, and of those of the ticker. -/
structure Counts where
  hits : Nat
  misses : Nat
  evicted : Nat
  ticked : Nat

namespace Engine

def counts (e : Engine) : Counts :=
  ⟨e.hitCount, e.missCount, e.expiredCount, e.chronometer.expiredCount⟩

section
variable {P : Primitives} {now : Time} {e : Engine}

@[simp] theorem register_counts (key : Bytes) (ttl : Duration) :
    (e.register key ttl).counts = e.counts := by
  unfold register
  split
  · simp only [counts, TimelineWheel.register_expiredCount]
  · rfl

theorem set_counts (key value : Bytes) (ttl : Duration) :
    (e.set P now key value ttl).1.counts = e.counts := by
  simp only [set]
  split
  · rfl
  · split
    · exact register_counts key ttl
    · exact register_counts key ttl

theorem setFromBuffer_counts (buf : Bytes) (keyLen : Int) (ttl : Duration) :
    (e.setFromBuffer P now buf keyLen ttl).1.counts = e.counts := by
  simp only [setFromBuffer]
  split
  · rfl
  · split
    · exact set_counts _ _ ttl
    · split
      · rfl
      · exact register_counts _ ttl

theorem setRaw_counts (key value : Bytes) (ttl : Duration) :
    (e.setRaw now key value ttl).1.counts = e.counts := by
  simp only [setRaw]
  split
  · rfl
  · exact register_counts key ttl

theorem deleteIfExpired_counts (key : Bytes) :
    (e.deleteIfExpired now key).1.counts = e.counts := by
  unfold deleteIfExpired
  split
  · rfl
  · split <;> rfl

theorem deleteIfExpired_lost (now : Time) (e : Engine) (key : Bytes) (property : Item → Bool)
    (covers : ∀ item, expired now item.expiration = true → property item = true) :
    lost property e.items (e.deleteIfExpired now key).1.items =
      if (e.deleteIfExpired now key).2 then 1 else 0 := by
  unfold deleteIfExpired
  cases found : e.items.lookup key with
  | none => exact lost_same property e.items
  | some item =>
    by_cases gone : expired now item.expiration = true
    · simp only [gone, ↓reduceIte]
      rw [show (e.remove key item).items = e.items.erase key from rfl, lost_erase property found,
        if_pos (covers item gone)]
    · simp only [eq_false_of_ne_true gone, Bool.false_eq_true, ↓reduceIte]
      exact lost_same property e.items

theorem evict_counts (now : Time) (e : Engine) (key : Bytes) :
    (e.evict now key).counts =
      { e.counts with
        evicted := e.counts.evicted +
          lost (fun item => expired now item.expiration) e.items (e.evict now key).items } := by
  have removed := deleteIfExpired_lost now e key (fun item => expired now item.expiration)
    fun _ gone => gone
  have kept : (e.deleteIfExpired now key).1.counts = e.counts := deleteIfExpired_counts key
  unfold evict
  generalize e.deleteIfExpired now key = tried at removed kept ⊢
  obtain ⟨e', evicted⟩ := tried
  cases evicted with
  | false =>
    simp only [Bool.false_eq_true, ↓reduceIte] at removed kept ⊢
    rw [removed, kept]
    rfl
  | true =>
    simp only [↓reduceIte] at removed kept ⊢
    rw [removed, ← kept]
    rfl

theorem delete_counts (now : Time) (e : Engine) (key : Bytes) :
    (e.delete now key).1.counts =
      { e.counts with
        evicted := e.counts.evicted +
          lost (fun item => expired now item.expiration) e.items (e.delete now key).1.items } := by
  unfold delete
  cases found : e.items.lookup key with
  | none =>
    simp only [lost_same]
    rfl
  | some item =>
    have removed := lost_erase (fun item => expired now item.expiration) found
    by_cases gone : expired now item.expiration = true
    · rw [if_pos gone] at removed
      simp only [if_pos gone]
      exact congrArg (fun n => { e.counts with evicted := e.counts.evicted + n }) removed.symm
    · rw [if_neg gone] at removed
      simp only [if_neg gone]
      exact congrArg (fun n => { e.counts with evicted := e.counts.evicted + n }) removed.symm

end

/-- The first half of a read leaves the map and the counters of evictions alone. -/
structure Looked (e e' : Engine) : Prop where
  items : e'.items = e.items
  ticked : e'.counts.ticked = e.counts.ticked
  evicted : e'.counts.evicted = e.counts.evicted

section
variable (P : Primitives) (now : Time) (e : Engine) (key : Bytes)

theorem looked : e.Looked (e.look P now key).1 := by
  unfold look
  split
  · exact ⟨rfl, rfl, rfl⟩
  · split
    · exact ⟨rfl, rfl, rfl⟩
    · split
      · split <;> exact ⟨rfl, rfl, rfl⟩
      · exact ⟨rfl, rfl, rfl⟩

theorem lookedInto (buf : Buffer) : e.Looked (e.lookInto P now buf key).1 := by
  simp only [lookInto]
  split
  · exact ⟨rfl, rfl, rfl⟩
  · split
    · exact ⟨rfl, rfl, rfl⟩
    · split
      · split <;> exact ⟨rfl, rfl, rfl⟩
      · split <;> exact ⟨rfl, rfl, rfl⟩

end

end Engine

/-- An engine, its ticker, and the keys of the reads that are between their halves. -/
structure Board where
  engine : Engine
  phase : TickPhase
  evicting : List Bytes

/-- A call, of a read its first half; the second half of the n-th read; or a step of the ticker. -/
inductive BoardStep where
  | call (c : Call)
  | getInto (buf : Buffer) (key : Bytes)
  | evict (n : Nat)
  | tick

namespace Board

def start (e : Engine) : Board := ⟨e, .idle, []⟩

def looked {α : Type} (b : Board) (key : Bytes) (look : Engine × Look α) : Board :=
  match look.2 with
  | .answered _ => { b with engine := look.1 }
  | .over => { b with engine := look.1, evicting := b.evicting ++ [key] }

def step (P : Primitives) (now : Time) (b : Board) : BoardStep → Board
  | .call (.get key) => b.looked key (b.engine.look P now key)
  | .call c => { b with engine := (b.engine.call P now c).1 }
  | .getInto buf key => b.looked key (b.engine.lookInto P now buf key)
  | .evict n =>
    match b.evicting[n]? with
    | none => b
    | some key =>
      { b with engine := b.engine.evict now key, evicting := b.evicting.eraseIdx n }
  | .tick =>
    let m := Machine.tick now ⟨b.engine, b.phase⟩
    { b with engine := m.engine, phase := m.phase }

def run (P : Primitives) : Board → List (Time × BoardStep) → Board
  | b, [] => b
  | b, (now, step) :: rest => run P (b.step P now step) rest

def removedByTick (P : Primitives) (now : Time) (b : Board) : BoardStep → Nat
  | .tick => lost (fun _ => true) b.engine.items (b.step P now .tick).engine.items
  | _ => 0

/-- Expired entries that a step of Get, GetInto or Delete removes from the map. -/
def removedByCall (P : Primitives) (now : Time) (b : Board) (step : BoardStep) : Nat :=
  match step with
  | .call (.get _) | .call (.delete _) | .getInto _ _ | .evict _ =>
    lost (fun item => expired now item.expiration) b.engine.items
      (b.step P now step).engine.items
  | _ => 0

def idleTry (P : Primitives) (now : Time) (b : Board) (step : BoardStep) : Nat :=
  match step, b.engine.chronometer, b.phase with
  | .tick, .wheel _, .deleting (_ :: _) => 1 - b.removedByTick P now step
  | _, _, _ => 0

def total (P : Primitives) (count : Time → Board → BoardStep → Nat) :
    Board → List (Time × BoardStep) → Nat
  | _, [] => 0
  | b, (now, step) :: rest => count now b step + total P count (b.step P now step) rest

end Board

def TickPhase.waiting : TickPhase → Nat
  | .idle => 0
  | .taken _ batch | .deleting batch => batch.length

namespace Board

section
variable (P : Primitives) (now : Time) (b : Board)

/-- The wheel counts a slot when it takes it, and is ahead by the keys that wait and the tries
that removed nothing. -/
structure Counted (step : BoardStep) : Prop where
  ticked : (b.step P now step).engine.counts.ticked + b.phase.waiting =
    b.engine.counts.ticked + (b.step P now step).phase.waiting +
      b.removedByTick P now step + b.idleTry P now step
  evicted : (b.step P now step).engine.counts.evicted =
    b.engine.counts.evicted + b.removedByCall P now step

theorem tick_counted : b.Counted P now .tick := by
  obtain ⟨e, phase, evicting⟩ := b
  cases wheel : e.chronometer with
  | noOp =>
    have still : Board.step P now ⟨e, phase, evicting⟩ .tick = ⟨e, phase, evicting⟩ := by
      simp only [Board.step, Machine.tick, wheel]
    constructor
    · simp [removedByTick, idleTry, still, wheel, lost_same]
    · simp [removedByCall, still]
  | wheel c =>
    cases phase with
    | idle =>
      have next : Board.step P now ⟨e, .idle, evicting⟩ .tick =
          ⟨{ e with chronometer := .wheel c.takeSlot.2 }, .taken c.curSlot c.takeSlot.1,
            evicting⟩ := by
        simp only [Board.step, Machine.tick, wheel]
      constructor
      · simp [removedByTick, idleTry, next, wheel, lost_same, TickPhase.waiting, Engine.counts,
          TimelineWheel.expiredCount, Chronometer.takeSlot]
      · simp [removedByCall, next, Engine.counts]
    | taken slot batch =>
      have next : Board.step P now ⟨e, .taken slot batch, evicting⟩ .tick =
          ⟨{ e with chronometer := .wheel (c.storeSlot slot) }, .deleting batch, evicting⟩ := by
        simp only [Board.step, Machine.tick, wheel]
      constructor
      · simp [removedByTick, idleTry, next, wheel, lost_same, TickPhase.waiting, Engine.counts,
          TimelineWheel.expiredCount, Chronometer.storeSlot]
      · simp [removedByCall, next, Engine.counts]
    | deleting batch =>
      cases batch with
      | nil =>
        have next : Board.step P now ⟨e, .deleting [], evicting⟩ .tick = ⟨e, .idle, evicting⟩ := by
          simp only [Board.step, Machine.tick, wheel]
        constructor
        · simp [removedByTick, idleTry, next, wheel, lost_same, TickPhase.waiting]
        · simp [removedByCall, next]
      | cons key batch =>
        have removed := Engine.deleteIfExpired_lost now e key (fun _ => true) fun _ _ => rfl
        have kept : (e.deleteIfExpired now key).1.counts = e.counts :=
          Engine.deleteIfExpired_counts key
        have next : Board.step P now ⟨e, .deleting (key :: batch), evicting⟩ .tick =
            ⟨(e.deleteIfExpired now key).1, .deleting batch, evicting⟩ := by
          simp only [Board.step, Machine.tick, wheel]
        have once : (if (e.deleteIfExpired now key).2 = true then 1 else 0) ≤ 1 := by
          split <;> decide
        constructor
        · simp only [removedByTick, idleTry, next, wheel, kept, removed, TickPhase.waiting,
            List.length_cons]
          omega
        · simp [removedByCall, next, kept]

theorem Counted.of_call {step : BoardStep} (other : step ≠ .tick)
    (phase : (b.step P now step).phase = b.phase)
    (ticked : (b.step P now step).engine.counts.ticked = b.engine.counts.ticked)
    (evicted : (b.step P now step).engine.counts.evicted =
      b.engine.counts.evicted + b.removedByCall P now step) : b.Counted P now step := by
  have removed : b.removedByTick P now step = 0 := by
    cases step with
    | tick => exact absurd rfl other
    | call | getInto | evict => rfl
  have tried : b.idleTry P now step = 0 := by
    cases step with
    | tick => exact absurd rfl other
    | call | getInto | evict => rfl
  constructor
  · rw [phase, ticked, removed, tried]
    rfl
  · exact evicted

theorem Counted.of_setter {c : Call} (next : b.step P now (.call c) =
      { b with engine := (b.engine.call P now c).1 })
    (same : (b.engine.call P now c).1.counts = b.engine.counts)
    (setter : b.removedByCall P now (.call c) = 0) : b.Counted P now (.call c) := by
  refine .of_call P now b (by simp) ?_ ?_ ?_
  · rw [next]
  · rw [next, same]
  · rw [next, same, setter]
    rfl

theorem Counted.of_look {α : Type} {step : BoardStep} {key : Bytes} {look : Engine × Look α}
    (other : step ≠ .tick) (next : b.step P now step = b.looked key look)
    (looked : b.engine.Looked look.1)
    (read : b.removedByCall P now step = lost (fun item => expired now item.expiration)
      b.engine.items (b.step P now step).engine.items) : b.Counted P now step := by
  have engine : (b.looked key look).engine = look.1 := by
    unfold Board.looked
    split <;> rfl
  refine .of_call P now b other ?_ ?_ ?_
  · rw [next]
    unfold Board.looked
    split <;> rfl
  · rw [next, engine, looked.ticked]
  · rw [read, next, engine, looked.items, lost_same, looked.evicted]
    rfl

theorem step_counted (step : BoardStep) : b.Counted P now step := by
  cases step with
  | call c =>
    cases c with
    | set key value ttl => exact .of_setter P now b rfl (Engine.set_counts key value ttl) rfl
    | setFromBuffer buf keyLen ttl =>
      exact .of_setter P now b rfl (Engine.setFromBuffer_counts buf keyLen ttl) rfl
    | setRaw key value ttl => exact .of_setter P now b rfl (Engine.setRaw_counts key value ttl) rfl
    | delete key =>
      have counts := Engine.delete_counts now b.engine key
      have ticked := congrArg Counts.ticked counts
      have evicted := congrArg Counts.evicted counts
      exact .of_call P now b (by simp) rfl ticked evicted
    | get key => exact .of_look P now b (by simp) rfl (b.engine.looked P now key) rfl
  | getInto buf key =>
    exact .of_look P now b (by simp) rfl (b.engine.lookedInto P now key buf) rfl
  | evict n =>
    cases found : b.evicting[n]? with
    | none =>
      have still : b.step P now (.evict n) = b := by simp only [Board.step, found]
      refine .of_call P now b (by simp) ?_ ?_ ?_
      · rw [still]
      · rw [still]
      · simp [removedByCall, still, lost_same]
    | some key =>
      have next : b.step P now (.evict n) =
          { b with engine := b.engine.evict now key, evicting := b.evicting.eraseIdx n } := by
        simp only [Board.step, found]
      have counts := Engine.evict_counts now b.engine key
      refine .of_call P now b (by simp) ?_ ?_ ?_
      · rw [next]
      · rw [next, counts]
      · simp only [removedByCall, next, counts]
  | tick => exact tick_counted P now b

theorem run_counted (events : List (Time × BoardStep)) :
    (b.run P events).engine.counts.ticked + b.phase.waiting =
        b.engine.counts.ticked + (b.run P events).phase.waiting +
          b.total P (removedByTick P) events + b.total P (idleTry P) events ∧
      (b.run P events).engine.counts.evicted =
        b.engine.counts.evicted + b.total P (removedByCall P) events := by
  induction events generalizing b with
  | nil => exact ⟨rfl, rfl⟩
  | cons event events ih =>
    obtain ⟨now, step⟩ := event
    obtain ⟨ticked, evicted⟩ := ih (b.step P now step)
    have first := b.step_counted P now step
    have first_ticked := first.ticked
    have first_evicted := first.evicted
    simp only [run, total]
    constructor <;> omega

end

end Board

end Tellstone
