import Mathlib.Data.List.AList
import Tellstone.Crypto
import Tellstone.Lib.ExpiringMap
import Tellstone.Storage.Chronometer

/-! The in-memory engine. Every call takes the clock reading it runs at; times
are nanoseconds since the Unix epoch. -/
namespace Tellstone
open ByteStream ExpiringMap

abbrev Time := Nat

/-- No expiration is Go's zero time. -/
structure Item where
  value : Bytes
  expiration : Option Time
  deriving DecidableEq, Repr

abbrev Items := AList (fun _ : Bytes => Item)

/-- Counters are `Nat`. `draws` counts the nonces taken from crypto/rand so far. -/
structure Engine where
  items : Items
  chronometer : TimelineWheel
  crypto : CryptoEngine
  maxBytes : Nat
  allocatedBytes : Nat
  keyCount : Nat
  expiredCount : Nat
  hitCount : Nat
  missCount : Nat
  totalCommands : Nat
  cryptoEncryptedBytes : Nat
  cryptoDecryptedBytes : Nat
  draws : Nat

/-- The order in which one pass over a Go map visits its entries. -/
structure MapOrder where
  visit : List (Sigma fun _ : Bytes => Item) → List (Sigma fun _ : Bytes => Item)
  perm : ∀ entries, (visit entries).Perm entries

def MapOrder.asStored : MapOrder := ⟨id, fun _ => List.Perm.refl _⟩

def expiry (now : Time) (ttl : Duration) : Option Time :=
  if 0 < ttl then some (now + ttl.toNat) else none

namespace Engine

def new (interval : Duration) (numSlots maxBytes : Nat) (crypto : CryptoEngine) (draws : Nat) :
    Engine where
  items := ∅
  chronometer :=
    if h : 0 < interval ∧ 0 < numSlots then .wheel (.new interval numSlots h.1 h.2) else .noOp
  crypto := crypto
  maxBytes := maxBytes
  allocatedBytes := 0
  keyCount := 0
  expiredCount := 0
  hitCount := 0
  missCount := 0
  totalCommands := 0
  cryptoEncryptedBytes := 0
  cryptoDecryptedBytes := 0
  draws := draws

def full (e : Engine) (entrySize : Nat) : Bool :=
  decide (0 < e.maxBytes) && decide (e.maxBytes < e.allocatedBytes + entrySize)

def put (e : Engine) (key value : Bytes) (exp : Option Time) : Engine :=
  let newSize := key.length + value.length
  { e with
    items := e.items.insert key ⟨value, exp⟩
    totalCommands := e.totalCommands + 1
    allocatedBytes :=
      match e.items.lookup key with
      | some old =>
        let oldSize := key.length + old.value.length
        if oldSize < newSize then e.allocatedBytes + (newSize - oldSize)
        else if newSize < oldSize then e.allocatedBytes - (oldSize - newSize)
        else e.allocatedBytes
      | none => e.allocatedBytes + newSize
    keyCount := if (e.items.lookup key).isSome then e.keyCount else e.keyCount + 1 }

def register (e : Engine) (key : Bytes) (ttl : Duration) : Engine :=
  if 0 < ttl then { e with chronometer := e.chronometer.register key ttl } else e

def set (P : Primitives) (now : Time) (e : Engine) (key value : Bytes) (ttl : Duration) :
    Engine × Option Error :=
  let neededSize := e.crypto.storedSize value.length
  if e.full (key.length + neededSize) then (e, some .engineFull)
  else
    let exp := expiry now ttl
    if e.crypto.enabled then
      let stored := e.crypto.encryptInPlace P e.draws value
      let e := { e with draws := e.draws + 1 }.put key stored exp
      let e := { e with cryptoEncryptedBytes := e.cryptoEncryptedBytes + stored.length }
      (e.register key ttl, none)
    else ((e.put key value exp).register key ttl, none)

/-- `buf` holds key and value back to back, the key being its first `keyLen` bytes. -/
def setFromBuffer (P : Primitives) (now : Time) (e : Engine) (buf : Bytes) (keyLen : Int)
    (ttl : Duration) : Engine × Option Error :=
  if keyLen < 0 ∨ buf.length < keyLen then (e, some .invalidKeyLength)
  else
    let key := buf.take keyLen.toNat
    let value := buf.drop keyLen.toNat
    if e.crypto.enabled then e.set P now key value ttl
    else if e.full buf.length then (e, some .engineFull)
    else ((e.put key value (expiry now ttl)).register key ttl, none)

def setRaw (now : Time) (e : Engine) (key value : Bytes) (ttl : Duration) :
    Engine × Option Error :=
  if e.full (key.length + value.length) then (e, some .engineFull)
  else
    let e := e.put key value (expiry now ttl)
    let e := { e with cryptoEncryptedBytes := e.cryptoEncryptedBytes + value.length }
    (e.register key ttl, none)

def releaseKey (e : Engine) (key : Bytes) (item : Item) : Engine :=
  { e with
    allocatedBytes := e.allocatedBytes - (key.length + item.value.length)
    totalCommands := e.totalCommands + 1
    keyCount := e.keyCount - 1 }

def remove (e : Engine) (key : Bytes) (item : Item) : Engine :=
  { e with items := e.items.erase key }.releaseKey key item

/-- Reports whether the key was present; an expired entry goes but counts as absent. -/
def delete (now : Time) (e : Engine) (key : Bytes) : Engine × Bool :=
  match e.items.lookup key with
  | none => (e, false)
  | some item =>
    let e := e.remove key item
    if expired now item.expiration then ({ e with expiredCount := e.expiredCount + 1 }, false)
    else (e, true)

def deleteIfExpired (now : Time) (e : Engine) (key : Bytes) : Engine × Bool :=
  match e.items.lookup key with
  | none => (e, false)
  | some item => if expired now item.expiration then (e.remove key item, true) else (e, false)

def get (P : Primitives) (now : Time) (e : Engine) (key : Bytes) : Engine × Option Bytes :=
  match e.items.lookup key with
  | none =>
    ({ e with missCount := e.missCount + 1, totalCommands := e.totalCommands + 1 }, none)
  | some item =>
    if expired now item.expiration then
      let (e, evicted) := e.deleteIfExpired now key
      (if evicted then { e with expiredCount := e.expiredCount + 1 } else e, none)
    else if e.crypto.enabled then
      match e.crypto.decryptInPlace P item.value with
      | .error _ => (e, none)
      | .ok plain =>
        ({ e with
          hitCount := e.hitCount + 1
          totalCommands := e.totalCommands + 1
          cryptoDecryptedBytes := e.cryptoDecryptedBytes + plain.length }, some plain)
    else
      ({ e with hitCount := e.hitCount + 1, totalCommands := e.totalCommands + 1 },
        some item.value)

def forEach (now : Time) (order : MapOrder) (e : Engine) : List (Sigma fun _ : Bytes => Item) :=
  (order.visit e.items.entries).filter fun entry => !expired now entry.2.expiration

end Engine

end Tellstone
