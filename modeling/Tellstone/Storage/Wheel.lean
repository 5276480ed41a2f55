import Mathlib.Data.Nat.ModEq
import Tellstone.Storage.Eviction

/-! The timing wheel over whole runs: which slots its calls reach, and when the entry of a key
fires. -/
namespace Tellstone
open ByteStream ExpiringMap

def maxSlots : Nat := 1000

inductive WheelCall where
  | register (key : Bytes) (ttl : Duration)
  | advance
  deriving DecidableEq, Repr

namespace Chronometer

def turn (c : Chronometer) : Chronometer := c.takeSlot.2.storeSlot c.curSlot

def call (c : Chronometer) : WheelCall → Chronometer
  | .register key ttl => c.register key ttl
  | .advance => c.turn

def index (c : Chronometer) : WheelCall → Nat
  | .register _ ttl => c.targetSlot ttl
  | .advance => c.curSlot

def SizesFit (c : Chronometer) : Prop := ∀ slot, (c.slots slot).length ≤ slotCapacity

def InBounds : Chronometer → List WheelCall → Prop
  | c, [] => c.SizesFit
  | c, w :: calls => c.index w < maxSlots ∧ c.SizesFit ∧ InBounds (c.call w) calls

section
variable {c : Chronometer}

@[simp] theorem register_numSlots (key : Bytes) (ttl : Duration) :
    (c.register key ttl).numSlots = c.numSlots := by
  unfold register
  simp only
  split <;> rfl

@[simp] theorem register_interval (key : Bytes) (ttl : Duration) :
    (c.register key ttl).interval = c.interval := by
  unfold register
  simp only
  split <;> rfl

@[simp] theorem register_curSlot (key : Bytes) (ttl : Duration) :
    (c.register key ttl).curSlot = c.curSlot := by
  unfold register
  simp only
  split <;> rfl

theorem register_slots (key : Bytes) (ttl : Duration) (slot : Nat) :
    (c.register key ttl).slots slot =
      if slot = c.targetSlot ttl ∧ (c.slots slot).length < slotCapacity then c.slots slot ++ [key]
      else c.slots slot := by
  unfold register
  by_cases target : slot = c.targetSlot ttl
  · subst target
    by_cases room : (c.slots (c.targetSlot ttl)).length < slotCapacity
    · simp [room]
    · simp [room]
  · by_cases room : (c.slots (c.targetSlot ttl)).length < slotCapacity
    · simp [room, target]
    · simp [room, target]

theorem register_sizesFit (fits : c.SizesFit) (key : Bytes) (ttl : Duration) :
    (c.register key ttl).SizesFit := by
  intro slot
  rw [register_slots]
  split
  · rename_i added
    rw [List.length_append]
    exact added.2
  · exact fits slot

theorem turn_slots (slot : Nat) :
    c.turn.slots slot = if slot = c.curSlot then [] else c.slots slot :=
  Function.update_apply c.slots c.curSlot [] slot

theorem turn_sizesFit (fits : c.SizesFit) : c.turn.SizesFit := by
  intro slot
  rw [turn_slots]
  split
  · exact Nat.zero_le _
  · exact fits slot

theorem turn_curSlot (small : c.numSlots < 2 ^ 32) (on : c.curSlot < c.numSlots) :
    c.turn.curSlot = (c.curSlot + 1) % c.numSlots := by
  have fits : c.curSlot + 1 < 2 ^ 32 := by omega
  exact congrArg (· % c.numSlots) (Nat.mod_eq_of_lt fits)

theorem targetSlot_lt (ttl : Duration) : c.targetSlot ttl < c.numSlots :=
  Nat.mod_lt _ c.numSlots_pos

theorem call_curSlot (on : c.curSlot < c.numSlots) (w : WheelCall) :
    (c.call w).curSlot < (c.call w).numSlots := by
  cases w with
  | register key ttl => simpa [call] using on
  | advance => exact Nat.mod_lt _ c.numSlots_pos

theorem call_numSlots (w : WheelCall) : (c.call w).numSlots = c.numSlots := by
  cases w with
  | register key ttl => exact register_numSlots key ttl
  | advance => rfl

theorem call_sizesFit (fits : c.SizesFit) (w : WheelCall) : (c.call w).SizesFit := by
  cases w with
  | register key ttl => exact register_sizesFit fits key ttl
  | advance => exact turn_sizesFit fits

theorem index_lt (on : c.curSlot < c.numSlots) (w : WheelCall) : c.index w < c.numSlots := by
  cases w with
  | register key ttl => exact targetSlot_lt ttl
  | advance => exact on

theorem inBounds_of_small (small : c.numSlots ≤ maxSlots) (on : c.curSlot < c.numSlots)
    (fits : c.SizesFit) (calls : List WheelCall) : c.InBounds calls := by
  induction calls generalizing c with
  | nil => exact fits
  | cons w calls ih =>
    refine ⟨Nat.lt_of_lt_of_le (index_lt on w) small, fits, ?_⟩
    apply ih
    · rw [call_numSlots]
      exact small
    · exact call_curSlot on w
    · exact call_sizesFit fits w

theorem curSlot_lt_of_inBounds (ticks : Nat) (small : c.numSlots < 2 ^ 32)
    (on : c.curSlot + ticks < c.numSlots)
    (bounded : c.InBounds (List.replicate (ticks + 1) .advance)) :
    c.curSlot + ticks < maxSlots := by
  induction ticks generalizing c with
  | zero => exact bounded.1
  | succ ticks ih =>
    have moved : c.turn.curSlot = c.curSlot + 1 := by
      rw [turn_curSlot small (by omega)]
      exact Nat.mod_eq_of_lt (by omega)
    have left : c.turn.curSlot + ticks < c.turn.numSlots := by
      have same : c.turn.numSlots = c.numSlots := rfl
      omega
    have reached := ih (c := c.turn) small left bounded.2.2
    omega

end

end Chronometer

/-- The flag is cut to 32 bits and passed on unchecked; the arrays are long enough just if it
leaves at most `maxSlots`. -/
theorem wheel_in_bounds_iff (interval : Duration) (evictSlots maxBytes : Nat)
    (crypto : CryptoEngine) (draws : Nat) (c : Chronometer)
    (accepted : (Engine.new interval (evictSlots % 2 ^ 32) maxBytes crypto draws).chronometer =
      .wheel c) :
    (∀ calls, c.InBounds calls) ↔ evictSlots % 2 ^ 32 ≤ maxSlots := by
  simp only [Engine.new] at accepted
  split at accepted
  · rename_i usable
    cases accepted
    constructor
    · intro bounded
      by_contra large
      have past := Chronometer.curSlot_lt_of_inBounds maxSlots
        (c := .new interval (evictSlots % 2 ^ 32) usable.1 usable.2)
        (Nat.mod_lt _ (by decide)) (by simpa [Chronometer.new] using large) (bounded _)
      simp [Chronometer.new] at past
    · intro small
      exact Chronometer.inBounds_of_small small usable.2 (fun _ => Nat.zero_le _)
  · cases accepted

theorem wheel_in_bounds_default :
    256 % 2 ^ 32 ≤ maxSlots ∧ (Chronometer.new 1000000000 256 (by decide) (by decide)).InBounds
      [.register [107] 1000000000000] :=
  ⟨by decide, (wheel_in_bounds_iff 1000000000 256 0 .passThrough 0 _ rfl).mpr (by decide) _⟩

/-- With 1001 slots of a second each, a TTL of 1000 s is registered behind the last slot. -/
theorem wheel_out_of_bounds :
    ¬ (Chronometer.new 1000000000 1001 (by decide) (by decide)).InBounds
      [.register [107] 1000000000000] :=
  fun bounded => absurd bounded.1 (by decide)

def Engine.sweep (now : Time) : List Bytes → Engine → Engine
  | [], e => e
  | key :: batch, e => sweep now batch (e.deleteIfExpired now key).1

def Engine.advance (now : Time) (e : Engine) : Engine :=
  match e.chronometer with
  | .noOp => e
  | .wheel c => ({ e with chronometer := .wheel c.turn } : Engine).sweep now (c.slots c.curSlot)

/-- An engine, its clock, and the time its ticker fires next. -/
structure Timed where
  engine : Engine
  now : Time
  nextTick : Time

inductive TimedEvent where
  | call (now : Time) (c : Call)
  | tick
  deriving DecidableEq, Repr

namespace Timed

def start (begin : Time) (interval : Duration) (numSlots maxBytes : Nat) (crypto : CryptoEngine)
    (draws : Nat) : Timed :=
  ⟨.new interval numSlots maxBytes crypto draws, begin, begin + interval.toNat⟩

/-- No call after the tick that is due, and each tick one interval after the last. -/
def step (P : Primitives) (t : Timed) : TimedEvent → Option Timed
  | .call now c =>
    if t.now ≤ now ∧ now ≤ t.nextTick then some ⟨(t.engine.call P now c).1, now, t.nextTick⟩
    else none
  | .tick =>
    match t.engine.chronometer with
    | .noOp => none
    | .wheel c =>
      some ⟨t.engine.advance t.nextTick, t.nextTick, t.nextTick + c.interval.toNat⟩

def run (P : Primitives) : Timed → List TimedEvent → Option Timed
  | t, [] => some t
  | t, event :: events => (t.step P event).bind fun t => run P t events

end Timed

def Call.Touches (key : Bytes) : Call → Prop
  | .set k _ _ => k = key
  | .setFromBuffer buf keyLen _ => 0 ≤ keyLen ∧ keyLen ≤ buf.length ∧ buf.take keyLen.toNat = key
  | .setRaw k _ _ => k = key
  | .delete k => k = key
  | .get k => k = key

def TimedEvent.Touches (key : Bytes) : TimedEvent → Prop
  | .call _ c => c.Touches key
  | .tick => False

def ticksAfter (exp : Time) (interval : Nat) : Time → List TimedEvent → Nat
  | _, [] => 0
  | next, .call _ _ :: events => ticksAfter exp interval next events
  | next, .tick :: events =>
    (if exp < next then 1 else 0) + ticksAfter exp interval (next + interval) events

namespace Engine

section
variable {P : Primitives} {now : Time} {e : Engine}

theorem deleteIfExpired_chronometer (key : Bytes) :
    (e.deleteIfExpired now key).1.chronometer = e.chronometer := by
  unfold deleteIfExpired
  cases e.items.lookup key with
  | none => rfl
  | some item => cases gone : expired now item.expiration <;> simp [gone]

theorem delete_chronometer (key : Bytes) :
    (e.delete now key).1.chronometer = e.chronometer := by
  unfold delete
  cases e.items.lookup key with
  | none => rfl
  | some item => cases gone : expired now item.expiration <;> simp [gone]

theorem get_chronometer (key : Bytes) : (e.get P now key).1.chronometer = e.chronometer := by
  unfold get
  cases e.items.lookup key with
  | none => rfl
  | some item =>
    simp only
    split
    · split <;> exact deleteIfExpired_chronometer key
    · split
      · split <;> rfl
      · rfl

theorem sweep_chronometer (batch : List Bytes) :
    (e.sweep now batch).chronometer = e.chronometer := by
  induction batch generalizing e with
  | nil => rfl
  | cons key batch ih => exact ih.trans (deleteIfExpired_chronometer key)

theorem deleteIfExpired_lookup (k key : Bytes) :
    (e.deleteIfExpired now k).1.items.lookup key =
      if k = key ∧ (e.items.lookup key).any (fun item => expired now item.expiration) = true
      then none else e.items.lookup key := by
  unfold deleteIfExpired
  by_cases same : k = key
  · subst same
    cases found : e.items.lookup k with
    | none => simp [found]
    | some item => cases gone : expired now item.expiration <;> simp [gone, found]
  · rw [if_neg fun both => same both.1]
    cases e.items.lookup k with
    | none => rfl
    | some item =>
      simp only
      split
      · exact AList.lookup_erase_ne (Ne.symm same)
      · rfl

theorem sweep_lookup (batch : List Bytes) (key : Bytes) :
    (e.sweep now batch).items.lookup key =
      if key ∈ batch ∧ (e.items.lookup key).any (fun item => expired now item.expiration) = true
      then none else e.items.lookup key := by
  induction batch generalizing e with
  | nil => rw [if_neg fun both => List.not_mem_nil both.1, sweep]
  | cons k batch ih =>
    rw [sweep, ih, deleteIfExpired_lookup]
    by_cases gone : (e.items.lookup key).any (fun item => expired now item.expiration) = true
    · by_cases same : k = key
      · simp [same, gone]
      · simp [same, gone, Ne.symm same]
    · simp [gone]

end

end Engine

/-- The two wheels are the same to the key. -/
structure Chronometer.Beside (key : Bytes) (c c' : Chronometer) : Prop where
  interval : c'.interval = c.interval
  numSlots : c'.numSlots = c.numSlots
  curSlot : c'.curSlot = c.curSlot
  mem (slot : Nat) : key ∈ c'.slots slot ↔ key ∈ c.slots slot

theorem Chronometer.beside_register {key k : Bytes} (other : k ≠ key) (c : Chronometer)
    (ttl : Duration) : c.Beside key (c.register k ttl) := by
  refine ⟨register_interval k ttl, register_numSlots k ttl, register_curSlot k ttl, ?_⟩
  intro slot
  rw [register_slots]
  split
  · simp [Ne.symm other]
  · rfl

namespace Engine

section
variable {P : Primitives} {now : Time} {e stored : Engine} {key k : Bytes}

theorem register_chronometer (same : stored.chronometer = e.chronometer) (ttl : Duration) :
    (stored.register k ttl).chronometer = e.chronometer ∨
      (stored.register k ttl).chronometer = e.chronometer.register k ttl := by
  unfold register
  split
  · exact .inr (by rw [← same])
  · exact .inl same

theorem set_chronometer (value : Bytes) (ttl : Duration) :
    (e.set P now k value ttl).1.chronometer = e.chronometer ∨
      (e.set P now k value ttl).1.chronometer = e.chronometer.register k ttl := by
  simp only [set]
  split
  · exact .inl rfl
  · split
    · exact register_chronometer rfl ttl
    · exact register_chronometer rfl ttl

theorem call_chronometer (P : Primitives) (now : Time) (e : Engine) (c : Call) :
    (e.call P now c).1.chronometer = e.chronometer ∨
      ∃ k, c.Touches k ∧ ∃ ttl, (e.call P now c).1.chronometer = e.chronometer.register k ttl := by
  cases c with
  | set k value ttl => exact (set_chronometer value ttl).imp_right fun put => ⟨k, rfl, ttl, put⟩
  | setFromBuffer buf keyLen ttl =>
    simp only [call, setFromBuffer]
    split
    · exact .inl rfl
    · rename_i valid
      have touched : (Call.setFromBuffer buf keyLen ttl).Touches (buf.take keyLen.toNat) :=
        ⟨by omega, by omega, rfl⟩
      split
      · exact (set_chronometer _ ttl).imp_right fun put => ⟨_, touched, ttl, put⟩
      · split
        · exact .inl rfl
        · exact (register_chronometer rfl ttl).imp_right fun put => ⟨_, touched, ttl, put⟩
  | setRaw k value ttl =>
    simp only [call, setRaw]
    split
    · exact .inl rfl
    · exact (register_chronometer rfl ttl).imp_right fun put => ⟨k, rfl, ttl, put⟩
  | delete k => exact .inl (delete_chronometer k)
  | get k => exact .inl (get_chronometer k)

theorem set_lookup_of_ne (other : k ≠ key) (value : Bytes) (ttl : Duration) :
    (e.set P now k value ttl).1.items.lookup key = e.items.lookup key := by
  simp only [set]
  split
  · rfl
  · split
    · simp only [register_items, put_items, AList.lookup_insert_ne (Ne.symm other)]
    · simp only [register_items, put_items, AList.lookup_insert_ne (Ne.symm other)]

theorem call_lookup {c : Call} (apart : ¬ c.Touches key) :
    (e.call P now c).1.items.lookup key = e.items.lookup key := by
  cases c with
  | set k value ttl => exact set_lookup_of_ne apart value ttl
  | setFromBuffer buf keyLen ttl =>
    simp only [call, setFromBuffer]
    split
    · rfl
    · rename_i valid
      have other : buf.take keyLen.toNat ≠ key := fun same => apart ⟨by omega, by omega, same⟩
      split
      · exact set_lookup_of_ne other _ ttl
      · split
        · rfl
        · simp only [register_items, put_items, AList.lookup_insert_ne (Ne.symm other)]
  | setRaw k value ttl =>
    simp only [call, setRaw]
    split
    · rfl
    · simp only [register_items, put_items, AList.lookup_insert_ne (Ne.symm apart)]
  | delete k =>
    simp only [call, delete_items]
    exact AList.lookup_erase_ne (Ne.symm apart)
  | get k =>
    simp only [call, get_items]
    split
    · exact AList.lookup_erase_ne (Ne.symm apart)
    · rfl

theorem call_beside {c : Call} (apart : ¬ c.Touches key) {w : Chronometer}
    (wheel : e.chronometer = .wheel w) :
    ∃ w', (e.call P now c).1.chronometer = .wheel w' ∧ w.Beside key w' := by
  obtain same | ⟨k, touched, ttl, registered⟩ := call_chronometer P now e c
  · exact ⟨w, same.trans wheel, rfl, rfl, rfl, fun _ => Iff.rfl⟩
  · have other : k ≠ key := fun same => apart (same ▸ touched)
    refine ⟨w.register k ttl, ?_, w.beside_register other ttl⟩
    rw [registered, wheel, TimelineWheel.register]

end

end Engine

/-- `c` is `n` ticks after `c₀`: the key is left in the slots that did not fire since. -/
structure Chronometer.Turned (key : Bytes) (c₀ : Chronometer) (n : Nat) (c : Chronometer) :
    Prop where
  interval : c.interval = c₀.interval
  numSlots : c.numSlots = c₀.numSlots
  curSlot : c.curSlot = (c₀.curSlot + n) % c₀.numSlots
  mem (slot : Nat) : key ∈ c.slots slot ↔
    key ∈ c₀.slots slot ∧ ∀ d < n, slot ≠ (c₀.curSlot + d) % c₀.numSlots

namespace Chronometer

section
variable {key : Bytes} {c₀ c c' : Chronometer} {n : Nat}

theorem turned_zero (on : c.curSlot < c.numSlots) : c.Turned key 0 c := by
  refine ⟨rfl, rfl, (Nat.mod_eq_of_lt on).symm, fun slot => ?_⟩
  simp

theorem Turned.beside (turned : c₀.Turned key n c) (beside : c.Beside key c') :
    c₀.Turned key n c' where
  interval := beside.interval.trans turned.interval
  numSlots := beside.numSlots.trans turned.numSlots
  curSlot := beside.curSlot.trans turned.curSlot
  mem slot := (beside.mem slot).trans (turned.mem slot)

theorem Turned.turn (turned : c₀.Turned key n c) (small : c₀.numSlots < 2 ^ 32) :
    c₀.Turned key (n + 1) c.turn where
  interval := turned.interval
  numSlots := turned.numSlots
  curSlot := by
    have on : c.curSlot < c.numSlots := by
      rw [turned.curSlot, turned.numSlots]
      exact Nat.mod_lt _ c₀.numSlots_pos
    rw [turn_curSlot (turned.numSlots ▸ small) on, turned.curSlot, turned.numSlots,
      Nat.mod_add_mod, Nat.add_assoc]
  mem slot := by
    rw [turn_slots, turned.curSlot]
    constructor
    · intro left
      split at left
      · exact absurd left List.not_mem_nil
      · rename_i other
        obtain ⟨stood, unfired⟩ := (turned.mem slot).mp left
        refine ⟨stood, fun d before => ?_⟩
        rcases Nat.lt_succ_iff_lt_or_eq.mp before with earlier | rfl
        · exact unfired d earlier
        · exact other
    · rintro ⟨stood, unfired⟩
      rw [if_neg (unfired n (Nat.lt_succ_self n)), turned.mem]
      exact ⟨stood, fun d before => unfired d (Nat.lt_succ_of_lt before)⟩

theorem unfired_iff {a m : Nat} (pos : 0 < m) :
    (∀ d < n, (a + n) % m ≠ (a + d) % m) ↔ n < m := by
  constructor
  · intro fresh
    by_contra late
    apply fresh (n - m) (by omega)
    rw [show a + n = a + (n - m) + m by omega, Nat.add_mod_right]
  · intro within d before same
    have equal : n % m = d % m := Nat.ModEq.add_left_cancel' a same
    rw [Nat.mod_eq_of_lt within, Nat.mod_eq_of_lt (Nat.lt_trans before within)] at equal
    omega

theorem Turned.mem_curSlot (turned : c₀.Turned key n c) :
    key ∈ c.slots c.curSlot ↔ key ∈ c₀.slots ((c₀.curSlot + n) % c₀.numSlots) ∧
      n < c₀.numSlots := by
  rw [turned.mem, turned.curSlot, unfired_iff c₀.numSlots_pos]

end

end Chronometer

/-- One of the next `n` ticks, the first at `due`, finds the key in its slot and fires after
`exp`. -/
def Chronometer.Takes (c : Chronometer) (key : Bytes) (exp due : Time) (n : Nat) : Prop :=
  ∃ d < n, d < c.numSlots ∧ key ∈ c.slots ((c.curSlot + d) % c.numSlots) ∧
    exp < due + d * c.interval.toNat

theorem Chronometer.takes_succ {c : Chronometer} {key : Bytes} {exp due : Time} {n : Nat} :
    c.Takes key exp due (n + 1) ↔ c.Takes key exp due n ∨ n < c.numSlots ∧
      key ∈ c.slots ((c.curSlot + n) % c.numSlots) ∧ exp < due + n * c.interval.toNat := by
  constructor
  · rintro ⟨d, before, taken⟩
    rcases Nat.lt_succ_iff_lt_or_eq.mp before with earlier | rfl
    · exact .inl ⟨d, earlier, taken⟩
    · exact .inr taken
  · rintro (⟨d, before, taken⟩ | taken)
    · exact ⟨d, Nat.lt_succ_of_lt before, taken⟩
    · exact ⟨n, Nat.lt_succ_self n, taken⟩

/-- `n` ticks after the key was left alone on the wheel `c`. -/
structure Timed.Awaits (c : Chronometer) (key : Bytes) (exp due : Time) (n : Nat) (t : Timed) :
    Prop where
  wheel : ∃ w, t.engine.chronometer = .wheel w ∧ c.Turned key n w
  nextTick : t.nextTick = due + n * c.interval.toNat
  taken : c.Takes key exp due n → t.engine.items.lookup key = none
  kept : ¬ c.Takes key exp due n →
    ∃ item, t.engine.items.lookup key = some item ∧ item.expiration = some exp

namespace Timed

section
variable {P : Primitives} {c : Chronometer} {key : Bytes} {exp due : Time} {n : Nat} {t t' : Timed}

theorem Awaits.call (awaits : t.Awaits c key exp due n) {now : Time} {call : Call}
    (apart : ¬ call.Touches key) (stepped : t.step P (.call now call) = some t') :
    t'.Awaits c key exp due n := by
  obtain ⟨w, wheel, turned⟩ := awaits.wheel
  simp only [step] at stepped
  split at stepped
  · cases stepped
    obtain ⟨w', wheel', beside⟩ : ∃ w',
        (t.engine.call P now call).1.chronometer = .wheel w' ∧ w.Beside key w' :=
      Engine.call_beside apart wheel
    refine ⟨⟨w', wheel', turned.beside beside⟩, awaits.nextTick, ?_, ?_⟩
    · rw [Engine.call_lookup apart]
      exact awaits.taken
    · rw [Engine.call_lookup apart]
      exact awaits.kept
  · cases stepped

theorem Awaits.tick (small : c.numSlots < 2 ^ 32) (awaits : t.Awaits c key exp due n)
    (stepped : t.step P .tick = some t') : t'.Awaits c key exp due (n + 1) := by
  obtain ⟨w, wheel, turned⟩ := awaits.wheel
  simp only [step, wheel, Option.some.injEq] at stepped
  subst stepped
  have lookup := @Engine.sweep_lookup t.nextTick { t.engine with chronometer := .wheel w.turn }
    (w.slots w.curSlot) key
  refine ⟨⟨w.turn, ?_, turned.turn small⟩, ?_, ?_, ?_⟩
  · simp only [Engine.advance, wheel, Engine.sweep_chronometer]
  · rw [awaits.nextTick, turned.interval, Nat.succ_mul, Nat.add_assoc]
  · intro takes
    simp only [Engine.advance, wheel, lookup]
    by_cases before : c.Takes key exp due n
    · simp [awaits.taken before]
    · obtain ⟨item, found, expires⟩ := awaits.kept before
      obtain ⟨within, stands, after⟩ := (Chronometer.takes_succ.mp takes).resolve_left before
      rw [if_pos]
      refine ⟨turned.mem_curSlot.mpr ⟨stands, within⟩, ?_⟩
      simpa [found, expires, expired, awaits.nextTick] using after
  · intro untaken
    rw [Chronometer.takes_succ, not_or] at untaken
    obtain ⟨item, found, expires⟩ := awaits.kept untaken.1
    refine ⟨item, ?_, expires⟩
    simp only [Engine.advance, wheel, lookup]
    rw [if_neg, found]
    rintro ⟨stands, gone⟩
    apply untaken.2
    obtain ⟨stood, within⟩ := turned.mem_curSlot.mp stands
    refine ⟨within, stood, ?_⟩
    simpa [found, expires, expired, awaits.nextTick] using gone

theorem Awaits.run (small : c.numSlots < 2 ^ 32) (awaits : t.Awaits c key exp due n)
    {events : List TimedEvent} (apart : ∀ event ∈ events, ¬ event.Touches key)
    (ran : t.run P events = some t') : t'.Awaits c key exp due (n + events.count .tick) := by
  induction events generalizing t n with
  | nil =>
    cases ran
    exact awaits
  | cons event events ih =>
    obtain ⟨next, stepped, rest⟩ := Option.bind_eq_some_iff.mp ran
    have apart_rest (e : TimedEvent) (mem : e ∈ events) := apart e (List.mem_cons_of_mem _ mem)
    cases event with
    | call now call =>
      have ended := ih (awaits.call (apart _ List.mem_cons_self) stepped) apart_rest rest
      simpa using ended
    | tick =>
      have ended := ih (awaits.tick small stepped) apart_rest rest
      rwa [List.count_cons_self, Nat.add_comm (events.count _), ← Nat.add_assoc]

end

def OnWheel (interval : Duration) (numSlots : Nat) (t : Timed) : Prop :=
  ∀ c, t.engine.chronometer = .wheel c →
    c.interval = interval ∧ c.numSlots = numSlots ∧ c.curSlot < numSlots

section
variable {P : Primitives} {interval : Duration} {numSlots : Nat} {t t' : Timed}

theorem start_onWheel (begin : Time) (maxBytes : Nat) (crypto : CryptoEngine) (draws : Nat) :
    (start begin interval numSlots maxBytes crypto draws).OnWheel interval numSlots := by
  intro c wheel
  simp only [start, Engine.new] at wheel
  split at wheel
  · rename_i usable
    cases wheel
    exact ⟨rfl, rfl, usable.2⟩
  · cases wheel

theorem OnWheel.step (on : t.OnWheel interval numSlots) {event : TimedEvent}
    (stepped : t.step P event = some t') : t'.OnWheel interval numSlots := by
  cases event with
  | call now call =>
    simp only [Timed.step] at stepped
    split at stepped
    · cases stepped
      intro c wheel
      obtain same | ⟨k, _, ttl, registered⟩ := Engine.call_chronometer P now t.engine call
      · exact on c (same.symm.trans wheel)
      · simp only at wheel
        rw [registered] at wheel
        cases old : t.engine.chronometer with
        | noOp =>
          rw [old] at wheel
          cases wheel
        | wheel w =>
          rw [old] at wheel
          cases wheel
          obtain ⟨span, slots, position⟩ := on w old
          rw [Chronometer.register_interval, Chronometer.register_numSlots,
            Chronometer.register_curSlot]
          exact ⟨span, slots, position⟩
    · cases stepped
  | tick =>
    cases old : t.engine.chronometer with
    | noOp =>
      simp only [Timed.step, old] at stepped
      cases stepped
    | wheel w =>
      simp only [Timed.step, old, Option.some.injEq] at stepped
      subst stepped
      intro c wheel
      simp only [Engine.advance, old, Engine.sweep_chronometer, TimelineWheel.wheel.injEq] at wheel
      subst wheel
      obtain ⟨span, slots, _⟩ := on w old
      exact ⟨span, slots, slots ▸ Nat.mod_lt _ w.numSlots_pos⟩

theorem OnWheel.run (on : t.OnWheel interval numSlots) {events : List TimedEvent}
    (ran : t.run P events = some t') : t'.OnWheel interval numSlots := by
  induction events generalizing t with
  | nil =>
    cases ran
    exact on
  | cons event events ih =>
    obtain ⟨next, stepped, rest⟩ := Option.bind_eq_some_iff.mp ran
    exact ih (on.step stepped) rest

theorem run_ticks (P : Primitives) (n : Nat) {c : Chronometer}
    (wheel : t.engine.chronometer = .wheel c) :
    ∃ last, t.run P (List.replicate n .tick) = some last := by
  induction n generalizing t c with
  | zero => exact ⟨t, rfl⟩
  | succ n ih =>
    have turned : (t.engine.advance t.nextTick).chronometer = .wheel c.turn := by
      simp only [Engine.advance, wheel, Engine.sweep_chronometer]
    obtain ⟨last, ran⟩ := ih
      (t := ⟨t.engine.advance t.nextTick, t.nextTick, t.nextTick + c.interval.toNat⟩) turned
    refine ⟨last, ?_⟩
    rw [List.replicate_succ, Timed.run, Timed.step, wheel]
    exact ran

end

end Timed

section
variable {exp next interval : Nat}

theorem ticksAfter_le_count (events : List TimedEvent) :
    ticksAfter exp interval next events ≤ events.count .tick := by
  induction events generalizing next with
  | nil => exact Nat.le_refl 0
  | cons event events ih =>
    cases event with
    | call now call => simpa [ticksAfter] using ih
    | tick =>
      have rest := @ih (next + interval)
      rw [ticksAfter, List.count_cons_self]
      split
      · omega
      · omega

theorem ticksAfter_ticks (m n : Nat) (late : exp < next + m * interval) :
    n ≤ ticksAfter exp interval next (List.replicate (m + n) .tick) := by
  induction m generalizing next with
  | zero =>
    induction n generalizing next with
    | zero => exact Nat.zero_le _
    | succ n ih =>
      have now_late : exp < next := by omega
      have rest := @ih (next + interval) (by omega)
      rw [Nat.zero_add] at rest
      rw [Nat.zero_add, List.replicate_succ, ticksAfter, if_pos now_late]
      omega
  | succ m ih =>
    have rest := @ih (next + interval) (by rw [Nat.succ_mul] at late; omega)
    rw [Nat.succ_add, List.replicate_succ, ticksAfter]
    omega

end

theorem Engine.set_registered {P : Primitives} {now : Time} {e : Engine} {key value : Bytes}
    {ttl : Duration} (positive : 0 < ttl) (accepted : (e.set P now key value ttl).2 = none) :
    (e.set P now key value ttl).1.chronometer = e.chronometer.register key ttl := by
  simp only [set, set_ok_iff.mp accepted, Bool.false_eq_true, ↓reduceIte]
  split
  · rw [register, if_pos positive]
    rfl
  · rw [register, if_pos positive]
    rfl

theorem Timed.awaits_set {P : Primitives} {t t' : Timed} {c : Chronometer} {now : Time}
    {key value : Bytes} {ttl : Duration} (wheel : t.engine.chronometer = .wheel c)
    (on : c.curSlot < c.numSlots) (positive : 0 < ttl)
    (stepped : t.step P (.call now (.set key value ttl)) = some t')
    (accepted : (t.engine.set P now key value ttl).2 = none) :
    t'.Awaits (c.register key ttl) key (now + ttl.toNat) t.nextTick 0 := by
  simp only [step] at stepped
  split at stepped
  · cases stepped
    refine ⟨⟨c.register key ttl, ?_, ?_⟩, ?_, ?_, fun _ => ?_⟩
    · simp only [Engine.call, Engine.set_registered positive accepted, wheel,
        TimelineWheel.register]
    · apply Chronometer.turned_zero
      rw [Chronometer.register_curSlot, Chronometer.register_numSlots]
      exact on
    · rw [Nat.zero_mul, Nat.add_zero]
    · rintro ⟨d, before, _⟩
      exact absurd before (Nat.not_lt_zero d)
    · refine ⟨⟨t.engine.crypto.encryptInPlace P t.engine.draws value, expiry now ttl⟩, ?_,
        if_pos positive⟩
      simp only [Engine.call, Engine.set_items (Engine.set_ok_iff.mp accepted)]
      exact AList.lookup_insert _
  · cases stepped

/-- A key left alone is gone `numSlots` ticks past its expiration just if one of its entries on
the wheel fires after it. That of this Set does not when the TTL was cut and the next tick is
near: its slot fires while the key is alive, and nothing registers it again. -/
theorem expired_reclaimed_iff (P : Primitives) {begin : Time} {interval : Duration}
    {numSlots maxBytes draws : Nat} {crypto : CryptoEngine} (uint32 : numSlots < 2 ^ 32)
    {events : List TimedEvent} {t t' : Timed}
    (reached : (Timed.start begin interval numSlots maxBytes crypto draws).run P events = some t)
    {c : Chronometer} (wheel : t.engine.chronometer = .wheel c) {now : Time} {key value : Bytes}
    {ttl : Duration} (positive : 0 < ttl)
    (stored : t.step P (.call now (.set key value ttl)) = some t')
    (accepted : (t.engine.set P now key value ttl).2 = none)
    (registered : (c.slots (c.targetSlot ttl)).length < slotCapacity) :
    (∀ later last, (∀ event ∈ later, ¬ event.Touches key) → t'.run P later = some last →
      numSlots ≤ ticksAfter (now + ttl.toNat) interval.toNat t.nextTick later →
      last.engine.items.lookup key = none) ↔
    ∃ d < numSlots, (c.targetSlot ttl = (c.curSlot + d) % numSlots ∨
        key ∈ c.slots ((c.curSlot + d) % numSlots)) ∧
      now + ttl.toNat < t.nextTick + d * interval.toNat := by
  obtain ⟨rfl, rfl, on⟩ := (Timed.start_onWheel begin maxBytes crypto draws).run reached c wheel
  have awaits := Timed.awaits_set wheel on positive stored accepted
  have small : (c.register key ttl).numSlots < 2 ^ 32 := by
    rw [Chronometer.register_numSlots]
    exact uint32
  have stands (slot : Nat) : key ∈ (c.register key ttl).slots slot ↔
      c.targetSlot ttl = slot ∨ key ∈ c.slots slot := by
    rw [Chronometer.register_slots]
    by_cases target : slot = c.targetSlot ttl
    · subst target
      simp [registered]
    · simp [target, Ne.symm target]
  constructor
  · intro reclaimed
    by_contra never
    let ticks := now + ttl.toNat + 1 + c.numSlots
    have spaced : 0 < c.interval.toNat := Int.pos_iff_toNat_pos.mp c.interval_pos
    obtain ⟨w, running, _⟩ := awaits.wheel
    obtain ⟨last, ran⟩ := Timed.run_ticks P ticks running
    have apart : ∀ event ∈ List.replicate ticks TimedEvent.tick, ¬ event.Touches key := by
      intro event mem
      rw [(List.mem_replicate.mp mem).2]
      exact id
    have late : now + ttl.toNat < t.nextTick + (now + ttl.toNat + 1) * c.interval.toNat :=
      Nat.lt_of_lt_of_le (Nat.lt_succ_self _)
        (Nat.le_trans (Nat.le_mul_of_pos_right _ spaced) (Nat.le_add_left _ _))
    have enough := ticksAfter_ticks (now + ttl.toNat + 1) c.numSlots late
    have ended := awaits.run small apart ran
    obtain ⟨item, found, _⟩ := ended.kept (by
      rintro ⟨d, _, within, mem, after⟩
      rw [Chronometer.register_numSlots] at within mem
      rw [Chronometer.register_curSlot, stands] at mem
      rw [Chronometer.register_interval] at after
      exact never ⟨d, within, mem, after⟩)
    rw [reclaimed _ last apart ran enough] at found
    cases found
  · rintro ⟨d, within, mem, after⟩ later last apart ran enough
    apply (awaits.run small apart ran).taken
    refine ⟨d, ?_, ?_, ?_, ?_⟩
    · have fired := Nat.le_trans enough (ticksAfter_le_count later)
      omega
    · rw [Chronometer.register_numSlots]
      exact within
    · rw [Chronometer.register_curSlot, Chronometer.register_numSlots, stands]
      exact mem
    · rw [Chronometer.register_interval]
      exact after

/-- Set at 2 with a TTL of 11 on four slots of 10: the slot of the second tick fires at 20. -/
theorem expired_reclaimed_iff_fires :
    let t := Timed.start 0 10 4 0 .passThrough 0
    ∀ later last, (∀ event ∈ later, ¬ event.Touches [107]) →
      (Timed.mk (t.engine.set .tagged 2 [107] [49] 11).1 2 10).run .tagged later = some last →
      4 ≤ ticksAfter 13 10 10 later → last.engine.items.lookup [107] = none := by
  intro t
  have reached : (Timed.start 0 10 4 0 .passThrough 0).run .tagged [] = some t := rfl
  have stored : t.step .tagged (.call 2 (.set [107] [49] 11)) =
      some ⟨(t.engine.set .tagged 2 [107] [49] 11).1, 2, 10⟩ := rfl
  exact (expired_reclaimed_iff .tagged (by decide) reached rfl (by decide) stored rfl
    (by decide)).mpr ⟨1, by decide⟩

/-- Set at 9 with a TTL of 15: its slot fires at 20, too early, and then no tick takes it. -/
theorem expired_never_reclaimed :
    let t := Timed.mk ((Engine.new 10 4 0 .passThrough 0).set .tagged 9 [107] [49] 15).1 9 10
    (Timed.start 0 10 4 0 .passThrough 0).step .tagged (.call 9 (.set [107] [49] 15)) = some t ∧
    ∃ later last, (∀ event ∈ later, ¬ event.Touches [107]) ∧
      t.run .tagged later = some last ∧ 4 ≤ ticksAfter 24 10 10 later ∧
      last.engine.items.lookup [107] ≠ none := by
  refine ⟨rfl, List.replicate 8 .tick, _, ?_, rfl, by decide, by decide⟩
  intro event mem
  rw [(List.mem_replicate.mp mem).2]
  exact id

end Tellstone
