import Tellstone.Storage.Concurrent

/-! The counters of an engine that goroutines share. They lag behind the map and may wrap; what
the calls in flight still owe makes up for the difference modulo 2^64. -/
namespace Tellstone
open ByteStream ExpiringMap

theorem addUint64_spec (a b : Nat) :
    addUint64 a b < 2 ^ 64 ∧ ((addUint64 a b : Int) - (a + b)) % 2 ^ 64 = 0 := by
  unfold addUint64
  omega

theorem subUint64_spec (a b : Nat) :
    subUint64 a b < 2 ^ 64 ∧ ((subUint64 a b : Int) - (a - b)) % 2 ^ 64 = 0 := by
  unfold subUint64
  omega

namespace Flight

/-- What the byte counter will still change by, for the map step of this call. -/
def bytesOwed (f : Flight) : Int := f.owed - f.released

def keysOwed : Flight → Int
  | .stored _ none | .grown => 1
  | .removed _ | .shrunk => -1
  | _ => 0

def between : Flight → Bool
  | .admitted _ _ _ | .evicting _ => false
  | _ => true

theorem settled_of_not_between {f : Flight} (settled : f.between = false) :
    f.bytesOwed = 0 ∧ f.keysOwed = 0 := by
  cases f with
  | admitted | evicting => exact ⟨rfl, rfl⟩
  | stored | grown | removed | shrunk => cases settled

end Flight

theorem owed_of_settled {flight : List Flight} (settled : ∀ f ∈ flight, f.between = false) :
    (flight.map Flight.bytesOwed).sum = 0 ∧ (flight.map Flight.keysOwed).sum = 0 := by
  constructor
  · apply List.sum_eq_zero
    intro owed mem
    obtain ⟨f, found, rfl⟩ := List.mem_map.mp mem
    exact (Flight.settled_of_not_between (settled f found)).1
  · apply List.sum_eq_zero
    intro owed mem
    obtain ⟨f, found, rfl⟩ := List.mem_map.mp mem
    exact (Flight.settled_of_not_between (settled f found)).2

theorem keys_erase (items : Items) (key : Bytes) :
    (items.erase key).entries.length + ((items.lookup key).map fun _ => 1).getD 0 =
      items.entries.length := by
  simpa using charged_erase (fun _ _ => 1) items key

theorem keys_insert (items : Items) (key : Bytes) (item : Item) :
    (items.insert key item).entries.length = (items.erase key).entries.length + 1 := by
  rw [AList.entries_insert, List.length_cons]
  rfl

namespace Shared

def bytesOwed (s : Shared) : Int := (s.flight.map Flight.bytesOwed).sum

def keysOwed (s : Shared) : Int := (s.flight.map Flight.keysOwed).sum

def quiet (s : Shared) : Bool := s.flight.all fun f => !f.between

/-- The counters together with what is owed to them are the sizes of the map. -/
structure Balanced (s : Shared) : Prop where
  bytes : ((s.allocatedBytes : Int) + s.bytesOwed - s.storedBytes) % 2 ^ 64 = 0
  keys : ((s.keyCount : Int) + s.keysOwed - s.items.entries.length) % 2 ^ 64 = 0
  word : s.allocatedBytes < 2 ^ 64
  count : s.keyCount < 2 ^ 64

section
variable {P : Primitives} {s s' : Shared}

theorem balanced_new (interval : Duration) (numSlots maxBytes : Nat) (crypto : CryptoEngine)
    (draws : Nat) : (ofEngine (Engine.new interval numSlots maxBytes crypto draws)).Balanced where
  bytes := rfl
  keys := rfl
  word := Nat.mod_lt _ (by decide)
  count := Nat.mod_lt _ (by decide)

theorem Balanced.replace (balanced : s.Balanced) {before old new after : List Flight}
    (flight : s.flight = before ++ old ++ after) (flight' : s'.flight = before ++ new ++ after)
    (word : s'.allocatedBytes < 2 ^ 64) (count : s'.keyCount < 2 ^ 64)
    (bytes : ((s'.allocatedBytes + (new.map Flight.bytesOwed).sum - s'.storedBytes) -
      (s.allocatedBytes + (old.map Flight.bytesOwed).sum - s.storedBytes) : Int) % 2 ^ 64 = 0)
    (keys : ((s'.keyCount + (new.map Flight.keysOwed).sum - s'.items.entries.length) -
      (s.keyCount + (old.map Flight.keysOwed).sum - s.items.entries.length) : Int) % 2 ^ 64 = 0) :
    s'.Balanced := by
  have bytes_before := balanced.bytes
  have keys_before := balanced.keys
  simp only [bytesOwed, keysOwed, flight, List.map_append, List.sum_append]
    at bytes_before keys_before
  refine ⟨?_, ?_, word, count⟩
  · simp only [bytesOwed, flight', List.map_append, List.sum_append]
    omega
  · simp only [keysOwed, flight', List.map_append, List.sum_append]
    omega

section
variable {before after : List Flight}

theorem Balanced.waiting (balanced : s.Balanced) {old new : List Flight}
    (flight : s.flight = before ++ old ++ after) (flight' : s'.flight = before ++ new ++ after)
    (settled : ∀ f ∈ old ++ new, f.between = false) (items : s'.items = s.items)
    (bytes : s'.allocatedBytes = s.allocatedBytes) (keys : s'.keyCount = s.keyCount) :
    s'.Balanced := by
  obtain ⟨old_bytes, old_keys⟩ :=
    owed_of_settled fun f mem => settled f (List.mem_append_left new mem)
  obtain ⟨new_bytes, new_keys⟩ :=
    owed_of_settled fun f mem => settled f (List.mem_append_right old mem)
  refine balanced.replace flight flight' (bytes ▸ balanced.word) (keys ▸ balanced.count) ?_ ?_
  · simp only [storedBytes, items, bytes, old_bytes, new_bytes]
    omega
  · simp only [items, keys, old_keys, new_keys]
    omega

theorem Balanced.store (balanced : s.Balanced) {key value : Bytes} {exp : Option Time}
    (flight : s.flight = before ++ [.admitted key value exp] ++ after)
    (flight' : s'.flight = before ++ [.stored (key.length + value.length)
      ((s.items.lookup key).map fun old => key.length + old.value.length)] ++ after)
    (items : s'.items = s.items.insert key ⟨value, exp⟩)
    (bytes : s'.allocatedBytes = s.allocatedBytes) (keys : s'.keyCount = s.keyCount) :
    s'.Balanced := by
  have erased := bytes_erase s.items key
  have inserted := bytes_insert s.items key value exp
  have fewer := keys_erase s.items key
  have more := keys_insert s.items key ⟨value, exp⟩
  refine balanced.replace flight flight' (bytes ▸ balanced.word) (keys ▸ balanced.count) ?_ ?_
  · simp only [storedBytes, items, bytes, List.map_singleton, List.sum_singleton,
      Flight.bytesOwed, Flight.owed, Flight.released]
    omega
  · simp only [items, keys, List.map_singleton, List.sum_singleton]
    cases here : s.items.lookup key with
    | none =>
      rw [here] at fewer
      simp only [Option.map_none, Option.getD_none, Flight.keysOwed] at fewer ⊢
      omega
    | some old =>
      rw [here] at fewer
      simp only [Option.map_some, Option.getD_some, Flight.keysOwed] at fewer ⊢
      omega

theorem Balanced.evict (balanced : s.Balanced) {key : Bytes} {item : Item} {old : List Flight}
    (found : s.items.lookup key = some item) (flight : s.flight = before ++ old ++ after)
    (settled : ∀ f ∈ old, f.between = false)
    (flight' : s'.flight = before ++ [.removed (key.length + item.value.length)] ++ after)
    (items : s'.items = s.items.erase key)
    (bytes : s'.allocatedBytes = s.allocatedBytes) (keys : s'.keyCount = s.keyCount) :
    s'.Balanced := by
  have erased := bytes_erase s.items key
  have fewer := keys_erase s.items key
  rw [found, Option.map_some, Option.getD_some] at erased fewer
  obtain ⟨old_bytes, old_keys⟩ := owed_of_settled settled
  refine balanced.replace flight flight' (bytes ▸ balanced.word) (keys ▸ balanced.count) ?_ ?_
  · simp only [storedBytes, items, bytes, old_bytes, List.map_singleton, List.sum_singleton,
      Flight.bytesOwed, Flight.owed, Flight.released]
    omega
  · simp only [items, keys, old_keys, List.map_singleton, List.sum_singleton, Flight.keysOwed]
    omega

theorem Balanced.charge (balanced : s.Balanced) {f : Flight} {new : List Flight}
    (flight : s.flight = before ++ [f] ++ after) (flight' : s'.flight = before ++ new ++ after)
    (items : s'.items = s.items) (keys : s'.keyCount = s.keyCount)
    (word : s'.allocatedBytes < 2 ^ 64)
    (charged : ((s'.allocatedBytes + (new.map Flight.bytesOwed).sum) -
      (s.allocatedBytes + f.bytesOwed) : Int) % 2 ^ 64 = 0)
    (counted : (new.map Flight.keysOwed).sum = f.keysOwed) : s'.Balanced := by
  refine balanced.replace flight flight' word (keys ▸ balanced.count) ?_ ?_
  · simp only [storedBytes, items, List.map_singleton, List.sum_singleton]
    omega
  · simp only [items, keys, counted, List.map_singleton, List.sum_singleton]
    omega

theorem Balanced.counted (balanced : s.Balanced) {f : Flight} {count : Nat} {rest : List Flight}
    (flight : s.flight = before ++ [f] ++ after) (flight' : rest = before ++ [] ++ after)
    (small : count < 2 ^ 64) (charged : f.bytesOwed = 0)
    (keys : ((count : Int) - (s.keyCount + f.keysOwed)) % 2 ^ 64 = 0) :
    Balanced { s with keyCount := count, flight := rest } := by
  refine balanced.replace flight flight' balanced.word small ?_ ?_
  · simp only [storedBytes, charged, List.map_nil, List.sum_nil, List.map_singleton,
      List.sum_singleton]
    omega
  · simp only [List.map_nil, List.sum_nil, List.map_singleton, List.sum_singleton]
    omega

end

theorem Balanced.advance (balanced : s.Balanced) (now : Time) (n : Nat) :
    (s.advance now n).Balanced := by
  unfold Shared.advance
  cases found : s.flight[n]? with
  | none => exact balanced
  | some f =>
    obtain ⟨before, after, flight, set, erase⟩ := flight_split found
    rw [List.append_cons] at flight
    cases f with
    | admitted key value exp => exact balanced.store flight (set _) rfl rfl rfl
    | stored newSize oldSize =>
      cases oldSize with
      | none =>
        obtain ⟨small, added⟩ := addUint64_spec s.allocatedBytes newSize
        refine balanced.charge flight (set _) rfl rfl small ?_ rfl
        simp only [List.map_singleton, List.sum_singleton, Flight.bytesOwed, Flight.owed,
          Flight.released, Option.getD_none]
        omega
      | some oldSize =>
        obtain ⟨small, adjusted⟩ := adjust_spec balanced.word newSize oldSize
        refine balanced.charge flight erase rfl rfl small ?_ rfl
        simp only [List.map_nil, List.sum_nil, Flight.bytesOwed, Flight.owed, Flight.released,
          Option.getD_some]
        omega
    | grown =>
      obtain ⟨small, added⟩ := addUint64_spec s.keyCount 1
      refine balanced.counted flight erase small rfl ?_
      simp only [Flight.keysOwed]
      omega
    | evicting key =>
      simp only
      cases here : s.expiredItem now key with
      | none => exact balanced.waiting flight erase (by simp [Flight.between]) rfl rfl rfl
      | some item =>
        exact balanced.evict (expiredItem_found here) flight (by simp [Flight.between]) (set _)
          rfl rfl rfl
    | removed size =>
      obtain ⟨small, taken⟩ := subUint64_spec s.allocatedBytes size
      refine balanced.charge flight (set _) rfl rfl small ?_ rfl
      simp only [List.map_singleton, List.sum_singleton, Flight.bytesOwed, Flight.owed,
        Flight.released]
      omega
    | shrunk =>
      obtain ⟨small, taken⟩ := subUint64_spec s.keyCount 1
      refine balanced.counted flight erase small rfl ?_
      simp only [Flight.keysOwed]
      omega

theorem Balanced.begins (balanced : s.Balanced) {f : Flight}
    (flight : s'.flight = s.flight ++ [f]) (settled : f.between = false)
    (items : s'.items = s.items) (bytes : s'.allocatedBytes = s.allocatedBytes)
    (keys : s'.keyCount = s.keyCount) : s'.Balanced := by
  rw [← List.append_nil (s.flight ++ [f])] at flight
  exact balanced.waiting (show s.flight = s.flight ++ [] ++ [] by simp) flight
    (by simpa using settled) items bytes keys

theorem Balanced.take (balanced : s.Balanced) {key : Bytes} {item : Item}
    (found : s.items.lookup key = some item) : (s.take key item).Balanced := by
  have flight : (s.take key item).flight =
      s.flight ++ [.removed (key.length + item.value.length)] ++ [] := (List.append_nil _).symm
  exact balanced.evict found (show s.flight = s.flight ++ [] ++ [] by simp) (by simp) flight
    rfl rfl rfl

theorem Balanced.beginSet (balanced : s.Balanced) (now : Time) (key value : Bytes)
    (ttl : Duration) : (s.beginSet P now key value ttl).Balanced := by
  unfold Shared.beginSet
  split
  · exact balanced
  · split
    · exact balanced.begins rfl rfl rfl rfl rfl
    · exact balanced.begins rfl rfl rfl rfl rfl

theorem Balanced.begin (balanced : s.Balanced) (now : Time) (c : Call) :
    (s.begin P now c).Balanced := by
  cases c with
  | set key value ttl => exact balanced.beginSet now key value ttl
  | setFromBuffer buf keyLen ttl =>
    simp only [Shared.begin]
    split
    · exact balanced
    · split
      · exact balanced.beginSet now _ _ ttl
      · split
        · exact balanced
        · exact balanced.begins rfl rfl rfl rfl rfl
  | setRaw key value ttl =>
    simp only [Shared.begin]
    split
    · exact balanced
    · exact balanced.begins rfl rfl rfl rfl rfl
  | delete key =>
    simp only [Shared.begin]
    cases found : s.items.lookup key with
    | none => exact balanced
    | some item => exact balanced.take found
  | get key =>
    simp only [Shared.begin]
    split
    · exact balanced
    · split
      · exact balanced.begins rfl rfl rfl rfl rfl
      · exact balanced

theorem Balanced.step (balanced : s.Balanced) (move : Move) : (s.step P move).Balanced := by
  cases move with
  | call now c => exact balanced.begin now c
  | evict now key =>
    simp only [Shared.step]
    cases found : s.expiredItem now key with
    | none => exact balanced
    | some item => exact balanced.take (expiredItem_found found)
  | advance now n => exact balanced.advance now n

theorem Balanced.run (balanced : s.Balanced) (moves : List Move) : (s.run P moves).Balanced := by
  induction moves generalizing s with
  | nil => exact balanced
  | cons move moves ih => exact ih (balanced.step move)

theorem Balanced.exact (balanced : s.Balanced) (quiet : s.quiet = true) :
    s.allocatedBytes = s.storedBytes % 2 ^ 64 ∧
      s.keyCount = s.items.entries.length % 2 ^ 64 := by
  have settled : ∀ f ∈ s.flight, f.between = false := by
    intro f mem
    simpa using List.all_eq_true.mp quiet f mem
  obtain ⟨nothing, none_left⟩ := owed_of_settled settled
  have bytes := balanced.bytes
  have keys := balanced.keys
  have word := balanced.word
  have count := balanced.count
  rw [bytesOwed, nothing] at bytes
  rw [keysOwed, none_left] at keys
  constructor <;> omega

end

end Shared

/-- Whenever no call is between its map step and its counter steps, both counters agree with the
map: as words, and so exactly while its sizes are words. -/
theorem counters_exact_when_quiet (P : Primitives) (interval : Duration)
    (numSlots maxBytes : Nat) (crypto : CryptoEngine) (draws : Nat) (moves : List Move)
    (s : Shared)
    (reached : s = (Shared.ofEngine (.new interval numSlots maxBytes crypto draws)).run P moves)
    (quiet : s.quiet = true) :
    s.allocatedBytes = s.storedBytes % 2 ^ 64 ∧
      s.keyCount = s.items.entries.length % 2 ^ 64 ∧
      (s.storedBytes < 2 ^ 64 → s.allocatedBytes = s.storedBytes) ∧
      (s.items.entries.length < 2 ^ 64 → s.keyCount = s.items.entries.length) := by
  have balanced : s.Balanced := by
    rw [reached]
    exact (Shared.balanced_new interval numSlots maxBytes crypto draws).run moves
  obtain ⟨bytes, keys⟩ := balanced.exact quiet
  refine ⟨bytes, keys, ?_, ?_⟩
  · intro small
    rw [bytes, Nat.mod_eq_of_lt small]
  · intro few
    rw [keys, Nat.mod_eq_of_lt few]

/-- A deletion lowers both counters before its setter has raised them, so that they wrap; a second
setter has only made its check when all is quiet again. -/
theorem counters_exact_when_quiet_after_wrap :
    let e := Shared.ofEngine (.new 0 0 100 .passThrough 0)
    let early : List Move :=
      [.call 1 (.set [97] [1, 2] 0), .advance 1 0, .call 2 (.delete [97]), .advance 2 1,
        .advance 2 1]
    let late : List Move :=
      [.advance 3 0, .call 3 (.setRaw [98] [7] 0), .advance 3 1, .advance 3 0,
        .call 4 (.set [99] [] 0), .advance 4 0, .advance 4 0]
    ((e.run .tagged early).allocatedBytes = 18446744073709551613 ∧
        (e.run .tagged early).keyCount = 18446744073709551615) ∧
      (e.run .tagged (early ++ late)).quiet = true ∧
      (e.run .tagged (early ++ late)).flight.length = 1 ∧
      (e.run .tagged (early ++ late)).allocatedBytes =
        (e.run .tagged (early ++ late)).storedBytes % 2 ^ 64 ∧
      (e.run .tagged (early ++ late)).keyCount =
        (e.run .tagged (early ++ late)).items.entries.length % 2 ^ 64 :=
  ⟨by decide +kernel, by decide +kernel, by decide +kernel,
    (counters_exact_when_quiet .tagged 0 0 100 .passThrough 0 _ _ rfl (by decide +kernel)).1,
    (counters_exact_when_quiet .tagged 0 0 100 .passThrough 0 _ _ rfl (by decide +kernel)).2.1⟩

end Tellstone
