import Tellstone.Storage.Engine

/-! What an engine holds, as an expiring map: once as stored and once decrypted.
Each call is an update of that map, up to entries that have expired. -/
namespace Tellstone
open ByteStream ExpiringMap

def CryptoEngine.plain (P : Primitives) (c : CryptoEngine) (stored : Bytes) : Option Bytes :=
  (c.decryptInPlace P stored).toOption

theorem CryptoEngine.plain_encrypt {P : Primitives} (law : P.Lawful) (c : CryptoEngine)
    (draw : Nat) (value : Bytes) : c.plain P (c.encryptInPlace P draw value) = some value := by
  rw [plain, decrypt_encrypt law]
  rfl

namespace Engine

def raw (e : Engine) : ExpiringMap Bytes Bytes :=
  fun key => (e.items.lookup key).map fun item => (item.value, item.expiration)

def contents (P : Primitives) (e : Engine) : ExpiringMap Bytes Bytes :=
  decode (e.crypto.plain P) e.raw

def read (P : Primitives) (now : Time) (e : Engine) (key : Bytes) : Option Bytes :=
  view now (e.contents P) key

theorem read_eq (P : Primitives) (now : Time) (e : Engine) (key : Bytes) :
    e.read P now key = (view now e.raw key).bind (e.crypto.plain P) :=
  view_decode _ _ _ _

section
variable (e : Engine) (key value : Bytes) (exp : Option Time) (ttl : Duration) (item : Item)

@[simp] theorem register_items : (e.register key ttl).items = e.items := by
  unfold register; split <;> rfl

@[simp] theorem register_crypto : (e.register key ttl).crypto = e.crypto := by
  unfold register; split <;> rfl

@[simp] theorem register_maxBytes : (e.register key ttl).maxBytes = e.maxBytes := by
  unfold register; split <;> rfl

@[simp] theorem register_allocatedBytes :
    (e.register key ttl).allocatedBytes = e.allocatedBytes := by
  unfold register; split <;> rfl

@[simp] theorem put_items : (e.put key value exp).items = e.items.insert key ⟨value, exp⟩ := rfl

@[simp] theorem put_crypto : (e.put key value exp).crypto = e.crypto := rfl

@[simp] theorem put_maxBytes : (e.put key value exp).maxBytes = e.maxBytes := rfl

@[simp] theorem remove_items : (e.remove key item).items = e.items.erase key := rfl

@[simp] theorem remove_crypto : (e.remove key item).crypto = e.crypto := rfl

@[simp] theorem remove_maxBytes : (e.remove key item).maxBytes = e.maxBytes := rfl

@[simp] theorem remove_chronometer : (e.remove key item).chronometer = e.chronometer := rfl

end

theorem full_eq_false_of_unbounded {e : Engine} (h : e.maxBytes = 0) (size : Nat) :
    e.full size = false := by
  simp [full, h]

section
variable {P : Primitives} {now : Time} {e : Engine} {key value : Bytes} {ttl : Duration}

theorem set_full (h : e.full (key.length + e.crypto.storedSize value.length) = true) :
    e.set P now key value ttl = (e, some .engineFull) := by
  simp [set, h]

theorem set_err (P : Primitives) (now : Time) (e : Engine) (key value : Bytes) (ttl : Duration) :
    (e.set P now key value ttl).2 =
      if e.full (key.length + e.crypto.storedSize value.length) then some .engineFull else none := by
  simp only [set]
  split
  · rfl
  · split <;> rfl

theorem set_ok_iff : (e.set P now key value ttl).2 = none ↔
    e.full (key.length + e.crypto.storedSize value.length) = false := by
  rw [set_err]
  cases e.full (key.length + e.crypto.storedSize value.length) <;> simp

@[simp] theorem set_crypto : (e.set P now key value ttl).1.crypto = e.crypto := by
  simp only [set]
  split
  · rfl
  · split <;> simp

@[simp] theorem set_maxBytes : (e.set P now key value ttl).1.maxBytes = e.maxBytes := by
  simp only [set]
  split
  · rfl
  · split <;> simp

theorem set_items (room : e.full (key.length + e.crypto.storedSize value.length) = false) :
    (e.set P now key value ttl).1.items =
      e.items.insert key ⟨e.crypto.encryptInPlace P e.draws value, expiry now ttl⟩ := by
  simp only [set, room, Bool.false_eq_true, ↓reduceIte]
  cases h : e.crypto with
  | passThrough => simp [CryptoEngine.enabled, CryptoEngine.encryptInPlace]
  | chacha k => simp [CryptoEngine.enabled]

theorem setRaw_items (room : e.full (key.length + value.length) = false) :
    (e.setRaw now key value ttl).1.items = e.items.insert key ⟨value, expiry now ttl⟩ := by
  simp [setRaw, room]

@[simp] theorem setRaw_crypto : (e.setRaw now key value ttl).1.crypto = e.crypto := by
  simp only [setRaw]
  split
  · rfl
  · simp

@[simp] theorem setRaw_maxBytes : (e.setRaw now key value ttl).1.maxBytes = e.maxBytes := by
  simp only [setRaw]
  split
  · rfl
  · simp

theorem setFromBuffer_maxBytes {buf : Bytes} {keyLen : Int} :
    (e.setFromBuffer P now buf keyLen ttl).1.maxBytes = e.maxBytes := by
  simp only [setFromBuffer]
  split
  · rfl
  · split
    · exact set_maxBytes
    · split <;> simp

end

theorem raw_insert {e e' : Engine} {key value : Bytes} {exp : Option Time}
    (h : e'.items = e.items.insert key ⟨value, exp⟩) :
    e'.raw = ExpiringMap.put e.raw key value exp := by
  funext j
  by_cases same : j = key
  · subst same
    simp [raw, h, ExpiringMap.put]
  · simp [raw, h, ExpiringMap.put, same, AList.lookup_insert_ne same]

theorem raw_erase {e e' : Engine} {key : Bytes} (h : e'.items = e.items.erase key) :
    e'.raw = ExpiringMap.erase e.raw key := by
  funext j
  by_cases same : j = key
  · subst same
    simp [raw, h, ExpiringMap.erase]
  · simp [raw, h, ExpiringMap.erase, same, AList.lookup_erase_ne same]

theorem raw_congr {e e' : Engine} (h : e'.items = e.items) : e'.raw = e.raw := by
  unfold raw
  rw [h]

theorem set_ok_raw {P : Primitives} {now : Time} {e e' : Engine} {key value : Bytes}
    {ttl : Duration} (stored : e.set P now key value ttl = (e', none)) :
    e'.raw = ExpiringMap.put e.raw key (e.crypto.encryptInPlace P e.draws value)
      (expiry now ttl) := by
  have room := set_ok_iff.mp (congrArg Prod.snd stored)
  apply raw_insert
  rw [← set_items room, stored]

theorem contents_set {P : Primitives} (law : P.Lawful) {now : Time} {e : Engine}
    {key value : Bytes} {ttl : Duration}
    (room : e.full (key.length + e.crypto.storedSize value.length) = false) :
    (e.set P now key value ttl).1.contents P =
      ExpiringMap.put (e.contents P) key value (expiry now ttl) := by
  rw [contents, set_crypto, raw_insert (set_items room),
    decode_put (CryptoEngine.plain_encrypt law e.crypto e.draws value)]
  rfl

theorem contents_set_ok {P : Primitives} (law : P.Lawful) {now : Time} {e e' : Engine}
    {key value : Bytes} {ttl : Duration} (stored : e.set P now key value ttl = (e', none)) :
    e'.contents P = ExpiringMap.put (e.contents P) key value (expiry now ttl) := by
  have room := set_ok_iff.mp (congrArg Prod.snd stored)
  rw [← contents_set law room, stored]

theorem set_raw_of_ne (P : Primitives) (now : Time) (e : Engine) {key k : Bytes} (value : Bytes)
    (ttl : Duration) (other : k ≠ key) : (e.set P now key value ttl).1.raw k = e.raw k := by
  cases room : e.full (key.length + e.crypto.storedSize value.length) with
  | true => rw [set_full room]
  | false =>
    rw [raw_insert (set_items room)]
    simp [ExpiringMap.put, other]

section
variable (P : Primitives) (now : Time) (e : Engine) (key : Bytes)

theorem delete_result : (e.delete now key).2 = (view now e.raw key).isSome := by
  unfold delete
  cases found : e.items.lookup key with
  | none => simp [view, raw, found]
  | some item => cases gone : expired now item.expiration <;> simp [view, raw, found, gone]

theorem delete_items : (e.delete now key).1.items = e.items.erase key := by
  unfold delete
  cases found : e.items.lookup key with
  | none =>
    apply AList.ext
    exact (List.kerase_of_notMem_keys (AList.lookup_eq_none.mp found)).symm
  | some item => cases gone : expired now item.expiration <;> simp [gone]

theorem delete_raw_of_ne {k : Bytes} (other : k ≠ key) :
    (e.delete now key).1.raw k = e.raw k := by
  rw [raw_erase (delete_items now e key)]
  simp [ExpiringMap.erase, other]

@[simp] theorem delete_crypto : (e.delete now key).1.crypto = e.crypto := by
  unfold delete
  cases e.items.lookup key with
  | none => rfl
  | some item => cases gone : expired now item.expiration <;> simp [gone]

@[simp] theorem delete_maxBytes : (e.delete now key).1.maxBytes = e.maxBytes := by
  unfold delete
  cases e.items.lookup key with
  | none => rfl
  | some item => cases gone : expired now item.expiration <;> simp [gone]

theorem contents_delete :
    (e.delete now key).1.contents P = ExpiringMap.erase (e.contents P) key := by
  rw [contents, delete_crypto, raw_erase (delete_items now e key), decode_erase]
  rfl

@[simp] theorem deleteIfExpired_crypto : (e.deleteIfExpired now key).1.crypto = e.crypto := by
  unfold deleteIfExpired
  cases e.items.lookup key with
  | none => rfl
  | some item => cases gone : expired now item.expiration <;> simp [gone]

@[simp] theorem deleteIfExpired_maxBytes :
    (e.deleteIfExpired now key).1.maxBytes = e.maxBytes := by
  unfold deleteIfExpired
  cases e.items.lookup key with
  | none => rfl
  | some item => cases gone : expired now item.expiration <;> simp [gone]

theorem deleteIfExpired_sameFrom : SameFrom now (e.deleteIfExpired now key).1.raw e.raw := by
  unfold deleteIfExpired
  cases found : e.items.lookup key with
  | none => exact SameFrom.refl _ _
  | some item =>
    cases gone : expired now item.expiration with
    | false => simpa [gone] using SameFrom.refl _ _
    | true =>
      simp only [gone, ↓reduceIte]
      rw [raw_erase (remove_items e key item)]
      have stored : e.raw key = some (item.value, item.expiration) := by simp [raw, found]
      exact sameFrom_erase_expired stored gone

theorem get_result : (e.get P now key).2 = e.read P now key := by
  rw [read_eq]
  unfold get
  cases found : e.items.lookup key with
  | none => simp [view, raw, found]
  | some item =>
    cases gone : expired now item.expiration with
    | true => simp [view, raw, found, gone]
    | false =>
      simp only [Bool.false_eq_true, ↓reduceIte, view, raw, found, gone, Option.map_some,
        Option.bind_some]
      cases e.crypto with
      | passThrough => rfl
      | chacha k =>
        simp only [CryptoEngine.enabled, ↓reduceIte, CryptoEngine.plain]
        cases (CryptoEngine.chacha k).decryptInPlace P item.value <;> rfl

theorem get_items : (e.get P now key).1.items =
    if (e.items.lookup key).any fun item => expired now item.expiration then e.items.erase key
    else e.items := by
  unfold get
  cases found : e.items.lookup key with
  | none => rfl
  | some item =>
    cases gone : expired now item.expiration with
    | true => simp [deleteIfExpired, found, gone]
    | false =>
      simp only [Bool.false_eq_true, ↓reduceIte, Option.any_some, gone]
      split
      · split <;> rfl
      · rfl

theorem get_sameFrom : SameFrom now (e.get P now key).1.raw e.raw := by
  unfold get
  cases found : e.items.lookup key with
  | none => exact SameFrom.refl _ _
  | some item =>
    simp only
    split
    · have evicts := deleteIfExpired_sameFrom now e key
      simp only
      split
      · exact evicts
      · exact evicts
    · split
      · split <;> exact SameFrom.refl _ _
      · exact SameFrom.refl _ _

@[simp] theorem get_crypto : (e.get P now key).1.crypto = e.crypto := by
  unfold get
  cases e.items.lookup key with
  | none => rfl
  | some item =>
    simp only
    split
    · split <;> simp
    · split
      · split <;> rfl
      · rfl

@[simp] theorem get_maxBytes : (e.get P now key).1.maxBytes = e.maxBytes := by
  unfold get
  cases e.items.lookup key with
  | none => rfl
  | some item =>
    simp only
    split
    · split <;> simp
    · split
      · split <;> rfl
      · rfl

theorem contents_get : SameFrom now ((e.get P now key).1.contents P) (e.contents P) := by
  rw [contents, get_crypto]
  exact (get_sameFrom P now e key).decode _

end

section
variable {now : Time} {order : MapOrder} {e : Engine}

theorem mem_forEach {entry : Sigma fun _ : Bytes => Item} :
    entry ∈ e.forEach now order ↔
      entry ∈ e.items.entries ∧ expired now entry.2.expiration = false := by
  simp [forEach, (order.perm _).mem_iff]

theorem forEach_nodupKeys : (e.forEach now order).NodupKeys :=
  ((List.perm_nodupKeys (order.perm _)).mpr e.items.nodupKeys).sublist List.filter_sublist

end

end Engine

end Tellstone
