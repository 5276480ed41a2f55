import Tellstone.Lib.Ledger
import Tellstone.Storage.Contents

/-! The byte counter of the engine: it is the sum of the entries, and stays
within the ceiling. -/
namespace Tellstone
open ByteStream ExpiringMap

namespace Engine

def ledger (e : Engine) : Ledger Bytes :=
  Ledger.ofMap (fun k (item : Item) => k.length + item.value.length) e.items

def entrySize (entry : Sigma fun _ : Bytes => Item) : Nat := entry.1.length + entry.2.value.length

theorem ledger_total (e : Engine) : e.ledger.total = (e.items.entries.map entrySize).sum := by
  rw [Ledger.total, ledger, Ledger.ofMap, List.map_map]
  rfl

def charge (crypto : CryptoEngine) (key value : Bytes) : Nat :=
  key.length + crypto.storedSize value.length

structure Accounted (e : Engine) : Prop where
  allocated : e.allocatedBytes = e.ledger.total
  within : e.maxBytes = 0 ∨ e.allocatedBytes ≤ e.maxBytes

/-- `e'` is `e` with one entry put in. -/
structure Puts (e : Engine) (key value : Bytes) (exp : Option Time) (e' : Engine) : Prop where
  items : e'.items = e.items.insert key ⟨value, exp⟩
  allocatedBytes : e'.allocatedBytes = (e.put key value exp).allocatedBytes
  crypto : e'.crypto = e.crypto
  maxBytes : e'.maxBytes = e.maxBytes

section
variable {P : Primitives} {now : Time} {e e' : Engine} {key value : Bytes} {exp : Option Time}
  {ttl : Duration}

theorem new_accounted (interval : Duration) (numSlots maxBytes : Nat) (crypto : CryptoEngine)
    (draws : Nat) : (Engine.new interval numSlots maxBytes crypto draws).Accounted :=
  ⟨rfl, Or.inr (Nat.zero_le _)⟩

theorem Accounted.full_eq (accounted : e.Accounted) (size : Nat) :
    e.full size = !e.ledger.room e.maxBytes size := by
  simp only [full, Ledger.room, ← accounted.allocated, Bool.not_or, ← decide_not]
  congr 1
  · simp [Nat.pos_iff_ne_zero]
  · simp

theorem Puts.ledger (puts : e.Puts key value exp e') :
    e'.ledger = e.ledger.insert key (key.length + value.length) := by
  rw [Engine.ledger, puts.items, Ledger.ofMap_insert]
  rfl

theorem put_allocatedBytes (accounted : e.Accounted) :
    (e.put key value exp).allocatedBytes =
      Ledger.total (e.ledger.erase key) + (key.length + value.length) := by
  have split := e.ledger.total_erase key
  rw [← accounted.allocated, ledger, Ledger.ofMap_lookup, ← ledger] at split
  simp only [put]
  cases found : e.items.lookup key with
  | none =>
    simp only [found, Option.map_none, Option.getD_none] at split ⊢
    omega
  | some old =>
    simp only [found, Option.map_some, Option.getD_some] at split ⊢
    split
    · omega
    · split <;> omega

theorem Puts.accounted (puts : e.Puts key value exp e') (accounted : e.Accounted)
    (room : e.full (key.length + value.length) = false) : e'.Accounted := by
  have grown := puts.allocatedBytes.trans (put_allocatedBytes accounted)
  have split := e.ledger.total_erase key
  rw [← accounted.allocated] at split
  constructor
  · rw [puts.ledger, Ledger.total_insert, grown, Nat.add_comm]
  · simp only [full, Bool.and_eq_false_iff, decide_eq_false_iff_not] at room
    rw [puts.maxBytes]
    omega

theorem set_puts (P : Primitives) (now : Time) (ttl : Duration)
    (room : e.full (key.length + e.crypto.storedSize value.length) = false) :
    e.Puts key (e.crypto.encryptInPlace P e.draws value) (expiry now ttl)
      (e.set P now key value ttl).1 where
  items := set_items room
  allocatedBytes := by
    simp only [set, room, Bool.false_eq_true, ↓reduceIte]
    cases h : e.crypto with
    | passThrough => simp [CryptoEngine.enabled, CryptoEngine.encryptInPlace]
    | chacha k =>
      simp only [CryptoEngine.enabled, ↓reduceIte, register_allocatedBytes]
      rfl
  crypto := set_crypto
  maxBytes := set_maxBytes

theorem setRaw_puts (now : Time) (ttl : Duration)
    (room : e.full (key.length + value.length) = false) :
    e.Puts key value (expiry now ttl) (e.setRaw now key value ttl).1 where
  items := setRaw_items room
  allocatedBytes := by simp [setRaw, room]
  crypto := setRaw_crypto
  maxBytes := setRaw_maxBytes

theorem delete_ledger (now : Time) (e : Engine) (key : Bytes) :
    (e.delete now key).1.ledger = e.ledger.erase key := by
  rw [ledger, delete_items, Ledger.ofMap_erase]
  rfl

theorem delete_allocatedBytes (accounted : e.Accounted) :
    (e.delete now key).1.allocatedBytes = Ledger.total (e.ledger.erase key) := by
  have split := e.ledger.total_erase key
  rw [← accounted.allocated, ledger, Ledger.ofMap_lookup, ← ledger] at split
  unfold delete
  cases found : e.items.lookup key with
  | none =>
    simp only [found, Option.map_none, Option.getD_none] at split ⊢
    omega
  | some item =>
    have released : (e.remove key item).allocatedBytes = Ledger.total (e.ledger.erase key) := by
      simp only [found, Option.map_some, Option.getD_some] at split
      change e.allocatedBytes - (key.length + item.value.length) = _
      omega
    cases gone : expired now item.expiration with
    | false => simpa [gone] using released
    | true => simpa [gone] using released

theorem Accounted.delete (accounted : e.Accounted) : (e.delete now key).1.Accounted := by
  have freed : (e.delete now key).1.allocatedBytes = Ledger.total (e.ledger.erase key) :=
    delete_allocatedBytes accounted
  have split := e.ledger.total_erase key
  rw [← accounted.allocated] at split
  have within := accounted.within
  constructor
  · rw [freed, delete_ledger]
  · rw [delete_maxBytes]
    omega

/-! The counter through every call -/

theorem Accounted.set (law : P.Lawful) (accounted : e.Accounted) :
    (e.set P now key value ttl).1.Accounted := by
  cases room : e.full (key.length + e.crypto.storedSize value.length) with
  | true =>
    rw [set_full room]
    exact accounted
  | false =>
    apply (set_puts P now ttl room).accounted accounted
    rw [e.crypto.encryptInPlace_length law]
    exact room

theorem Accounted.setRaw (accounted : e.Accounted) :
    (e.setRaw now key value ttl).1.Accounted := by
  cases room : e.full (key.length + value.length) with
  | true => simpa [Engine.setRaw, room] using accounted
  | false => exact (setRaw_puts now ttl room).accounted accounted room

theorem Accounted.setFromBuffer (law : P.Lawful) (accounted : e.Accounted) (buf : Bytes)
    (keyLen : Int) : (e.setFromBuffer P now buf keyLen ttl).1.Accounted := by
  simp only [Engine.setFromBuffer]
  split
  · exact accounted
  · split
    · exact accounted.set law
    · cases room : e.full buf.length with
      | true => exact accounted
      | false =>
        have puts : e.Puts (buf.take keyLen.toNat) (buf.drop keyLen.toNat) (expiry now ttl)
            ((e.put (buf.take keyLen.toNat) (buf.drop keyLen.toNat) (expiry now ttl)).register
              (buf.take keyLen.toNat) ttl) :=
          ⟨by simp, by simp, by simp, by simp⟩
        apply puts.accounted accounted
        rw [← List.length_append, List.take_append_drop]
        exact room

theorem Accounted.deleteIfExpired (accounted : e.Accounted) :
    (e.deleteIfExpired now key).1.Accounted := by
  have erased : (e.delete now key).1.Accounted := accounted.delete
  unfold Engine.deleteIfExpired
  unfold Engine.delete at erased
  cases found : e.items.lookup key with
  | none => exact accounted
  | some item =>
    cases gone : expired now item.expiration with
    | false => simpa [gone] using accounted
    | true =>
      simp only [found, gone, ↓reduceIte] at erased ⊢
      exact ⟨erased.allocated, erased.within⟩

theorem Accounted.get (accounted : e.Accounted) : (e.get P now key).1.Accounted := by
  unfold Engine.get
  cases found : e.items.lookup key with
  | none => exact ⟨accounted.allocated, accounted.within⟩
  | some item =>
    simp only
    split
    · have evicted : (e.deleteIfExpired now key).1.Accounted := accounted.deleteIfExpired
      split
      · exact ⟨evicted.allocated, evicted.within⟩
      · exact evicted
    · split
      · split
        · exact accounted
        · exact ⟨accounted.allocated, accounted.within⟩
      · exact ⟨accounted.allocated, accounted.within⟩

end

end Engine

def Engine.Timeless (e : Engine) : Prop := ∀ k x, e.raw k = some x → x.2 = none

section
variable {P : Primitives} {now : Time} {e : Engine} {key : Bytes}

theorem Engine.Timeless.entry (timeless : e.Timeless) {entry : Sigma fun _ : Bytes => Item}
    (mem : entry ∈ e.items.entries) : entry.2.expiration = none := by
  have stored : e.items.lookup entry.1 = some entry.2 := List.mem_dlookup e.items.nodupKeys mem
  exact timeless entry.1 (entry.2.value, entry.2.expiration) (by simp [Engine.raw, stored])

theorem Engine.Timeless.get_items (timeless : e.Timeless) :
    (e.get P now key).1.items = e.items := by
  rw [Engine.get_items]
  cases found : e.items.lookup key with
  | none => rfl
  | some item =>
    have forever : item.expiration = none :=
      timeless key (item.value, item.expiration) (by simp [Engine.raw, found])
    simp [forever, expired]

theorem Engine.Timeless.get_allocatedBytes (timeless : e.Timeless) :
    (e.get P now key).1.allocatedBytes = e.allocatedBytes := by
  unfold Engine.get
  cases found : e.items.lookup key with
  | none => rfl
  | some item =>
    have forever : item.expiration = none :=
      timeless key (item.value, item.expiration) (by simp [Engine.raw, found])
    simp only [forever, expired, Bool.false_eq_true, ↓reduceIte]
    split
    · split <;> rfl
    · rfl

theorem Engine.Timeless.of_raw_eq {e' : Engine} (timeless : e.Timeless) (same : e'.raw = e.raw) :
    e'.Timeless := by
  intro k x found
  exact timeless k x (same ▸ found)

theorem Engine.Timeless.set {e' : Engine} {value : Bytes} {ttl : Duration}
    (timeless : e.Timeless) (forever : ttl ≤ 0) (stored : e.set P now key value ttl = (e', none)) :
    e'.Timeless := by
  intro k x found
  rw [Engine.set_ok_raw stored, ExpiringMap.put, expiry, if_neg (Int.not_lt.mpr forever)] at found
  by_cases same : k = key
  · subst same
    rw [Function.update_self] at found
    cases found
    rfl
  · rw [Function.update_of_ne same] at found
    exact timeless k x found

theorem Engine.Timeless.delete (timeless : e.Timeless) : (e.delete now key).1.Timeless := by
  intro k x found
  rw [Engine.raw_erase (Engine.delete_items now e key), ExpiringMap.erase] at found
  by_cases same : k = key
  · subst same
    rw [Function.update_self] at found
    cases found
  · rw [Function.update_of_ne same] at found
    exact timeless k x found

end

end Tellstone
