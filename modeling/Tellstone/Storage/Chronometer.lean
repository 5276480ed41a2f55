import Tellstone.Lib.ByteStream

/-! The timing wheel. A key waits in the slot of the tick its TTL points at, in
as many slots as it was registered for. -/
namespace Tellstone
open ByteStream

/-- Go's time.Duration, in nanoseconds. -/
abbrev Duration := Int

def slotCapacity : Nat := 512

/-- `slots i` lists the keys of bucket `i` in registration order. -/
structure Chronometer where
  interval : Duration
  numSlots : Nat
  curSlot : Nat
  slots : Nat → List Bytes
  overflows : Nat
  expiredCount : Nat
  interval_pos : 0 < interval
  numSlots_pos : 0 < numSlots

namespace Chronometer

def new (interval : Duration) (numSlots : Nat) (hi : 0 < interval) (hn : 0 < numSlots) :
    Chronometer :=
  ⟨interval, numSlots, 0, fun _ => [], 0, 0, hi, hn⟩

def steps (c : Chronometer) (ttl : Duration) : Nat :=
  let maxSteps := c.numSlots - 1
  let steps := word64 (ttl.tdiv c.interval)
  if steps > maxSteps then maxSteps else steps

def targetSlot (c : Chronometer) (ttl : Duration) : Nat :=
  (c.curSlot + c.steps ttl) % 2 ^ 32 % c.numSlots

def register (c : Chronometer) (key : Bytes) (ttl : Duration) : Chronometer :=
  let target := c.targetSlot ttl
  if (c.slots target).length < slotCapacity then
    { c with slots := Function.update c.slots target (c.slots target ++ [key]) }
  else { c with overflows := c.overflows + 1 }

/-- The part of a tick under the slot's lock: take the keys and reset the slot. -/
def takeSlot (c : Chronometer) : List Bytes × Chronometer :=
  let batch := c.slots c.curSlot
  (batch, { c with
    slots := Function.update c.slots c.curSlot []
    expiredCount := c.expiredCount + batch.length })

def storeSlot (c : Chronometer) (slot : Nat) : Chronometer :=
  { c with curSlot := (slot + 1) % 2 ^ 32 % c.numSlots }

end Chronometer

inductive TimelineWheel where
  | noOp
  | wheel (c : Chronometer)

def TimelineWheel.register (w : TimelineWheel) (key : Bytes) (ttl : Duration) : TimelineWheel :=
  match w with
  | .noOp => .noOp
  | .wheel c => .wheel (c.register key ttl)

end Tellstone
