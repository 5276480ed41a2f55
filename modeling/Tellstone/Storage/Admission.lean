import Tellstone.Storage.Accounting
import Tellstone.Storage.Eviction

/-! Admission under the ceiling. The check charges the new entry in full before the one it
replaces is looked up. -/
namespace Tellstone
open ByteStream ExpiringMap

namespace Engine

theorem Accounted.call {P : Primitives} {e : Engine} (law : P.Lawful) (accounted : e.Accounted)
    (now : Time) (c : Call) : (e.call P now c).1.Accounted := by
  cases c with
  | set key value ttl => exact accounted.set law
  | setFromBuffer buf keyLen ttl => exact accounted.setFromBuffer law buf keyLen
  | setRaw key value ttl => exact accounted.setRaw
  | delete key => exact accounted.delete
  | get key => exact accounted.get

end Engine

namespace Machine

theorem tick_accounted {m : Machine} (accounted : m.engine.Accounted) (now : Time) :
    (m.tick now).engine.Accounted := by
  unfold tick
  split
  · exact accounted
  · split
    · exact ⟨accounted.allocated, accounted.within⟩
    · exact ⟨accounted.allocated, accounted.within⟩
    · exact accounted
    · exact accounted.deleteIfExpired

theorem step_accounted {P : Primitives} {m : Machine} (law : P.Lawful)
    (accounted : m.engine.Accounted) (now : Time) (event : EngineEvent) :
    (m.step P now event).1.engine.Accounted := by
  cases event with
  | call c => exact accounted.call law now c
  | tick => exact tick_accounted accounted now

/-- A machine that calls and ticks lead to, from an engine without entries. -/
inductive Reachable (P : Primitives) : Machine → Prop where
  | start (interval : Duration) (numSlots maxBytes : Nat) (crypto : CryptoEngine) (draws : Nat) :
      Reachable P (.start (.new interval numSlots maxBytes crypto draws))
  | step {m : Machine} (reached : Reachable P m) (now : Time) (event : EngineEvent) :
      Reachable P (m.step P now event).1

theorem Reachable.accounted {P : Primitives} {m : Machine} (law : P.Lawful)
    (reached : Reachable P m) : m.engine.Accounted := by
  induction reached with
  | start interval numSlots maxBytes crypto draws =>
    exact Engine.new_accounted interval numSlots maxBytes crypto draws
  | step _ now event ih => exact step_accounted law ih now event

end Machine

namespace Engine

section
variable {P : Primitives} {e : Engine} {key : Bytes}

theorem put_total (accounted : e.Accounted) (key value : Bytes) (exp : Option Time) :
    (e.put key value exp).ledger.total + ((e.items.lookup key).map fun old =>
      key.length + old.value.length).getD 0 = e.allocatedBytes + (key.length + value.length) := by
  have puts : e.Puts key value exp (e.put key value exp) := ⟨rfl, rfl, rfl, rfl⟩
  have split := e.ledger.total_erase key
  rw [ledger, Ledger.ofMap_lookup, ← ledger] at split
  rw [puts.ledger, Ledger.total_insert, accounted.allocated]
  omega

theorem set_engineFull_iff (limited : 0 < e.maxBytes) (now : Time) (value : Bytes)
    (ttl : Duration) : (e.set P now key value ttl).2 = some .engineFull ↔
      e.maxBytes < e.allocatedBytes + (key.length + e.crypto.storedSize value.length) := by
  rw [set_err]
  simp [full, limited]

end

end Engine

/-- Set is refused exactly when the new value would not fit in place of the old one, unless there
is room for it only once the old one is gone. -/
theorem admission_exact_iff {P : Primitives} (law : P.Lawful) {m : Machine}
    (reached : m.Reachable P) (limited : 0 < m.engine.maxBytes) (now : Time) (key value : Bytes)
    (ttl : Duration) :
    ((m.engine.set P now key value ttl).2 = some .engineFull ↔
      m.engine.maxBytes < (m.engine.put key
        (m.engine.crypto.encryptInPlace P m.engine.draws value) (expiry now ttl)).ledger.total) ↔
    ∀ old, m.engine.items.lookup key = some old →
      m.engine.ledger.total + (key.length + m.engine.crypto.storedSize value.length) ≤
        m.engine.maxBytes ∨
      m.engine.maxBytes + (key.length + old.value.length) <
        m.engine.ledger.total + (key.length + m.engine.crypto.storedSize value.length) := by
  have accounted := reached.accounted law
  have total := Engine.put_total accounted key
    (m.engine.crypto.encryptInPlace P m.engine.draws value) (expiry now ttl)
  rw [m.engine.crypto.encryptInPlace_length law] at total
  rw [Engine.set_engineFull_iff limited, ← accounted.allocated]
  cases found : m.engine.items.lookup key with
  | none =>
    rw [found, Option.map_none, Option.getD_none, Nat.add_zero] at total
    rw [total]
    simp
  | some old =>
    rw [found, Option.map_some, Option.getD_some] at total
    constructor
    · rintro agrees _ ⟨⟩
      omega
    · intro apart
      have := apart old rfl
      omega

def Machine.filled : Machine :=
  ((Machine.start (.new 0 0 2 .passThrough 0)).step .tagged 0 (.call (.set [107] [1] 0))).1

theorem Machine.filled_reachable : Machine.filled.Reachable .tagged :=
  .step (.start 0 0 2 .passThrough 0) 0 (.call (.set [107] [1] 0))

theorem admission_exact_iff_filled :
    0 < Machine.filled.engine.maxBytes ∧
    (((Machine.filled.engine.set .tagged 1 [106] [] 0).2 = some .engineFull ↔
      Machine.filled.engine.maxBytes <
        (Machine.filled.engine.put [106]
          (Machine.filled.engine.crypto.encryptInPlace .tagged Machine.filled.engine.draws [])
          (expiry 1 0)).ledger.total) ↔
    ∀ old, Machine.filled.engine.items.lookup [106] = some old →
      Machine.filled.engine.ledger.total +
          ([106].length + Machine.filled.engine.crypto.storedSize 0) ≤
        Machine.filled.engine.maxBytes ∨
      Machine.filled.engine.maxBytes + ([106].length + old.value.length) <
        Machine.filled.engine.ledger.total +
          ([106].length + Machine.filled.engine.crypto.storedSize 0)) :=
  ⟨by decide, admission_exact_iff Primitives.tagged_lawful Machine.filled_reachable (by decide)
    1 [106] [] 0⟩

theorem overwrite_refused :
    (Machine.filled.engine.set .tagged 1 [107] [2] 0).2 = some .engineFull ∧
      (Machine.filled.engine.put [107] [2] none).ledger.total = 2 ∧
      Machine.filled.engine.maxBytes = 2 := by
  decide

end Tellstone
