import Tellstone.Storage.Concurrent

/-! The two insert paths of a caller, with the counters as the 64-bit words they are. -/
namespace Tellstone
open ByteStream

theorem keyLen_inside (key value : Bytes) :
    ¬((key.length : Int) < 0 ∨ ((key ++ value).length : Int) < key.length) := by
  rw [List.length_append]
  omega

def uint64 (n : Nat) : UInt64 := .ofNat n

/-- The fields the setters read and write. -/
structure WordEngine where
  items : Items
  chronometer : TimelineWheel
  crypto : CryptoEngine
  maxBytes : UInt64
  allocatedBytes : UInt64
  keyCount : UInt64
  totalCommands : UInt64
  cryptoEncryptedBytes : UInt64
  draws : Nat

namespace WordEngine

def full (e : WordEngine) (totalEntrySize : UInt64) : Bool :=
  decide (0 < e.maxBytes) && decide (e.maxBytes < e.allocatedBytes + totalEntrySize)

def resized (allocatedBytes newSize oldSize : UInt64) : UInt64 :=
  if oldSize < newSize then allocatedBytes + (newSize - oldSize)
  else if newSize < oldSize then allocatedBytes + ~~~(oldSize - newSize - 1)
  else allocatedBytes

def lookup (e : WordEngine) (storedKey : Bytes) : Option Item := e.items.lookup storedKey

def store (e : WordEngine) (storedKey value : Bytes) (exp : Option Time) : WordEngine :=
  { e with
    items := e.items.insert storedKey ⟨value, exp⟩
    totalCommands := e.totalCommands + 1 }

def account (e : WordEngine) (oldItem : Option Item) (oldSize : Item → UInt64)
    (newSize entrySize : UInt64) : WordEngine :=
  match oldItem with
  | some old => { e with allocatedBytes := resized e.allocatedBytes newSize (oldSize old) }
  | none => { e with allocatedBytes := e.allocatedBytes + entrySize, keyCount := e.keyCount + 1 }

def register (e : WordEngine) (storedKey : Bytes) (ttl : Duration) : WordEngine :=
  if 0 < ttl then { e with chronometer := e.chronometer.register storedKey ttl } else e

/-- What `Set` keeps: the encrypted value under a clone of the key, or both out of one buffer. -/
def copied (P : Primitives) (e : WordEngine) (key value : Bytes) : Bytes × Bytes :=
  if e.crypto.enabled then (key, e.crypto.encryptInPlace P e.draws value)
  else
    let buf := key ++ value
    (buf.take key.length, buf.drop key.length)

def set (P : Primitives) (now : Time) (e : WordEngine) (key value : Bytes) (ttl : Duration) :
    WordEngine × Option Error :=
  let cryptoEnabled := e.crypto.enabled
  let neededSize := if cryptoEnabled then 12 + value.length + 16 else value.length
  if e.full (uint64 (key.length + neededSize)) then (e, some .engineFull)
  else
    let exp := expiry now ttl
    let (storedKey, value) := e.copied P key value
    let oldItem := e.lookup storedKey
    let e := if cryptoEnabled then { e with draws := e.draws + 1 } else e
    let e := (e.store storedKey value exp).account oldItem
      (fun old => uint64 (key.length + old.value.length)) (uint64 (key.length + value.length))
      (uint64 (key.length + value.length))
    let e :=
      if cryptoEnabled then
        { e with cryptoEncryptedBytes := e.cryptoEncryptedBytes + uint64 value.length }
      else e
    (e.register storedKey ttl, none)

def setFromBuffer (P : Primitives) (now : Time) (e : WordEngine) (buf : Bytes) (keyLen : Int)
    (ttl : Duration) : WordEngine × Option Error :=
  if keyLen < 0 ∨ buf.length < keyLen then (e, some .invalidKeyLength)
  else
    let keyLen := keyLen.toNat
    if e.crypto.enabled then e.set P now (buf.take keyLen) (buf.drop keyLen) ttl
    else if e.full (uint64 buf.length) then (e, some .engineFull)
    else
      let exp := expiry now ttl
      let storedKey := buf.take keyLen
      let value := buf.drop keyLen
      let oldItem := e.lookup storedKey
      let e := (e.store storedKey value exp).account oldItem
        (fun old => uint64 (old.value.length + keyLen)) (uint64 (value.length + keyLen))
        (uint64 buf.length)
      (e.register storedKey ttl, none)

section
variable (P : Primitives) (now : Time) (e : WordEngine)

theorem copied_plain (plain : e.crypto.enabled = false) (key value : Bytes) :
    e.copied P key value = (key, value) := by
  simp [copied, plain]

theorem setFromBuffer_append (key value : Bytes) (ttl : Duration) :
    e.setFromBuffer P now (key ++ value) key.length ttl = e.set P now key value ttl := by
  rw [setFromBuffer, if_neg (keyLen_inside key value)]
  simp only [Int.toNat_natCast, List.take_left, List.drop_left]
  by_cases enabled : e.crypto.enabled = true
  · rw [if_pos enabled]
  · have plain := eq_false_of_ne_true enabled
    simp only [set, copied_plain P e plain, plain, Bool.false_eq_true, ↓reduceIte,
      List.length_append, Nat.add_comm _ key.length]

theorem setFromBuffer_outside {buf : Bytes} {keyLen : Int}
    (outside : keyLen < 0 ∨ buf.length < keyLen) (ttl : Duration) :
    e.setFromBuffer P now buf keyLen ttl = (e, some .invalidKeyLength) := by
  rw [setFromBuffer, if_pos outside]

end

/-- The two insert paths agree on every engine, whatever its counters hold. -/
theorem setFromBuffer_is_set (P : Primitives) (now : Time) (e : WordEngine) (ttl : Duration) :
    (∀ key value : Bytes,
      e.setFromBuffer P now (key ++ value) key.length ttl = e.set P now key value ttl) ∧
    ∀ (buf : Bytes) (keyLen : Int), keyLen < 0 ∨ buf.length < keyLen →
      e.setFromBuffer P now buf keyLen ttl = (e, some .invalidKeyLength) :=
  ⟨fun key value => setFromBuffer_append P now e key value ttl,
    fun _ _ outside => setFromBuffer_outside P now e outside ttl⟩

/-- An insert, an overwrite by a longer and by a shorter value, and a key length outside. -/
theorem setFromBuffer_is_set_runs :
    let e : WordEngine := ⟨∅, .noOp, .passThrough, 9, 0, 0, 0, 0, 0⟩
    let grown := (e.setFromBuffer .tagged 5 [97, 1, 2] 1 0).1
    grown = (e.set .tagged 5 [97] [1, 2] 0).1 ∧ grown.allocatedBytes = 3 ∧
      (grown.setFromBuffer .tagged 6 [97, 1, 2, 3] 1 0).1.allocatedBytes = 4 ∧
      (grown.set .tagged 6 [97] [1, 2, 3] 0).1.allocatedBytes = 4 ∧
      grown.setFromBuffer .tagged 7 [97] 2 0 = (grown, some .invalidKeyLength) := by
  refine ⟨?_, by decide +kernel, by decide +kernel, by decide +kernel, ?_⟩
  · exact congrArg Prod.fst ((setFromBuffer_is_set .tagged 5 _ 0).1 [97] [1, 2])
  · exact (setFromBuffer_is_set .tagged 7 _ 0).2 [97] 2 (by decide)

end WordEngine

end Tellstone
