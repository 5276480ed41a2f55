import Mathlib.Algebra.BigOperators.Group.List.Basic
import Tellstone.Storage.Accounting
import Tellstone.Storage.Eviction

/-! Calls of many goroutines on one engine. A setter checks the byte counter, updates the map
under the mutex, and then the counters; steps of others come in between. -/
namespace Tellstone
open ByteStream ExpiringMap

def addUint64 (a b : Nat) : Nat := (a + b) % 2 ^ 64

def subUint64 (a b : Nat) : Nat := (a + (2 ^ 64 - b % 2 ^ 64)) % 2 ^ 64

def adjust (allocatedBytes newSize oldSize : Nat) : Nat :=
  if oldSize < newSize then addUint64 allocatedBytes (newSize - oldSize)
  else if newSize < oldSize then subUint64 allocatedBytes (oldSize - newSize)
  else allocatedBytes

theorem adjust_spec {allocatedBytes : Nat} (word : allocatedBytes < 2 ^ 64)
    (newSize oldSize : Nat) :
    adjust allocatedBytes newSize oldSize < 2 ^ 64 ∧
      ((adjust allocatedBytes newSize oldSize : Int) - allocatedBytes - (newSize - oldSize)) %
        2 ^ 64 = 0 := by
  unfold adjust addUint64 subUint64
  by_cases grows : oldSize < newSize
  · rw [if_pos grows]
    omega
  · by_cases shrinks : newSize < oldSize
    · rw [if_neg grows, if_pos shrinks]
      omega
    · rw [if_neg grows, if_neg shrinks]
      omega

theorem adjust_exact {allocatedBytes oldSize : Nat} (covered : oldSize ≤ allocatedBytes)
    (newSize : Nat) :
    adjust (allocatedBytes % 2 ^ 64) newSize oldSize =
      (if oldSize < newSize then allocatedBytes + (newSize - oldSize)
        else if newSize < oldSize then allocatedBytes - (oldSize - newSize)
        else allocatedBytes) % 2 ^ 64 := by
  unfold adjust addUint64 subUint64
  by_cases grows : oldSize < newSize
  · rw [if_pos grows, if_pos grows]
    omega
  · by_cases shrinks : newSize < oldSize
    · rw [if_neg grows, if_pos shrinks, if_neg grows, if_pos shrinks]
      omega
    · rw [if_neg grows, if_neg shrinks, if_neg grows, if_neg shrinks]

inductive Flight where
  | admitted (key value : Bytes) (exp : Option Time)
  | stored (newSize : Nat) (oldSize : Option Nat)
  | grown
  | evicting (key : Bytes)
  | removed (size : Nat)
  | shrunk
  deriving DecidableEq, Repr

/-- The engine as goroutines share it, and the calls in flight. -/
structure Shared where
  items : Items
  maxBytes : Nat
  crypto : CryptoEngine
  draws : Nat
  allocatedBytes : Nat
  keyCount : Nat
  flight : List Flight

/-- A call begins, the ticker tries a key, or the n-th call in flight takes a step. -/
inductive Move where
  | call (now : Time) (c : Call)
  | evict (now : Time) (key : Bytes)
  | advance (now : Time) (n : Nat)

namespace Shared

def ofEngine (e : Engine) : Shared where
  items := e.items
  maxBytes := e.maxBytes
  crypto := e.crypto
  draws := e.draws
  allocatedBytes := e.allocatedBytes % 2 ^ 64
  keyCount := e.keyCount % 2 ^ 64
  flight := []

def full (s : Shared) (entrySize : Nat) : Bool :=
  decide (0 < s.maxBytes) && decide (s.maxBytes < addUint64 s.allocatedBytes entrySize)

def admitted (s : Shared) (key value : Bytes) (exp : Option Time) : Shared :=
  { s with flight := s.flight ++ [.admitted key value exp] }

def beginSet (P : Primitives) (now : Time) (s : Shared) (key value : Bytes) (ttl : Duration) :
    Shared :=
  if s.full (key.length + s.crypto.storedSize value.length) then s
  else if s.crypto.enabled then
    { s with draws := s.draws + 1 }.admitted key (s.crypto.encryptInPlace P s.draws value)
      (expiry now ttl)
  else s.admitted key value (expiry now ttl)

def take (s : Shared) (key : Bytes) (item : Item) : Shared :=
  { s with
    items := s.items.erase key
    flight := s.flight ++ [.removed (key.length + item.value.length)] }

def begin (P : Primitives) (now : Time) (s : Shared) : Call → Shared
  | .set key value ttl => s.beginSet P now key value ttl
  | .setFromBuffer buf keyLen ttl =>
    if keyLen < 0 ∨ buf.length < keyLen then s
    else
      let key := buf.take keyLen.toNat
      let value := buf.drop keyLen.toNat
      if s.crypto.enabled then s.beginSet P now key value ttl
      else if s.full buf.length then s
      else s.admitted key value (expiry now ttl)
  | .setRaw key value ttl =>
    if s.full (key.length + value.length) then s else s.admitted key value (expiry now ttl)
  | .delete key =>
    match s.items.lookup key with
    | none => s
    | some item => s.take key item
  | .get key =>
    match s.items.lookup key with
    | none => s
    | some item =>
      if expired now item.expiration then { s with flight := s.flight ++ [.evicting key] } else s

def expiredItem (now : Time) (s : Shared) (key : Bytes) : Option Item :=
  (s.items.lookup key).filter fun item => expired now item.expiration

def advance (now : Time) (s : Shared) (n : Nat) : Shared :=
  match s.flight[n]? with
  | none => s
  | some (.admitted key value exp) =>
    { s with
      items := s.items.insert key ⟨value, exp⟩
      flight := s.flight.set n (.stored (key.length + value.length)
        ((s.items.lookup key).map fun old => key.length + old.value.length)) }
  | some (.stored newSize (some oldSize)) =>
    { s with
      allocatedBytes := adjust s.allocatedBytes newSize oldSize
      flight := s.flight.eraseIdx n }
  | some (.stored newSize none) =>
    { s with
      allocatedBytes := addUint64 s.allocatedBytes newSize
      flight := s.flight.set n .grown }
  | some .grown =>
    { s with
      keyCount := addUint64 s.keyCount 1
      flight := s.flight.eraseIdx n }
  | some (.evicting key) =>
    match s.expiredItem now key with
    | none => { s with flight := s.flight.eraseIdx n }
    | some item =>
      { s with
        items := s.items.erase key
        flight := s.flight.set n (.removed (key.length + item.value.length)) }
  | some (.removed size) =>
    { s with
      allocatedBytes := subUint64 s.allocatedBytes size
      flight := s.flight.set n .shrunk }
  | some .shrunk =>
    { s with
      keyCount := subUint64 s.keyCount 1
      flight := s.flight.eraseIdx n }

def step (P : Primitives) (s : Shared) : Move → Shared
  | .call now c => s.begin P now c
  | .evict now key =>
    match s.expiredItem now key with
    | none => s
    | some item => s.take key item
  | .advance now n => s.advance now n

def run (P : Primitives) (s : Shared) (moves : List Move) : Shared := moves.foldl (step P) s

def storedBytes (s : Shared) : Nat := (s.items.entries.map Engine.entrySize).sum

end Shared

namespace Flight

def released : Flight → Nat
  | .removed size => size
  | _ => 0

def promised : Flight → Nat
  | .admitted key value _ => key.length + value.length
  | _ => 0

def owed : Flight → Int
  | .stored newSize oldSize => newSize - oldSize.getD 0
  | _ => 0

def writing : Flight → Bool
  | .admitted _ _ _ => true
  | .stored _ _ => true
  | _ => false

end Flight

theorem flight_split {flight : List Flight} {n : Nat} {f : Flight} (found : flight[n]? = some f) :
    ∃ before after, flight = before ++ f :: after ∧
      (∀ g, flight.set n g = before ++ [g] ++ after) ∧
      flight.eraseIdx n = before ++ [] ++ after := by
  obtain ⟨inside, rfl⟩ := List.getElem?_eq_some_iff.mp found
  refine ⟨flight.take n, flight.drop (n + 1), ?_, ?_, ?_⟩
  · rw [← List.drop_eq_getElem_cons inside, List.take_append_drop]
  · intro g
    rw [List.set_eq_take_append_cons_drop, if_pos inside, List.append_assoc,
      List.singleton_append]
  · rw [List.eraseIdx_eq_take_drop_succ, List.append_nil]

theorem charged_erase (size : Bytes → Item → Nat) (items : Items) (key : Bytes) :
    ((items.erase key).entries.map fun entry => size entry.1 entry.2).sum +
        ((items.lookup key).map (size key)).getD 0 =
      (items.entries.map fun entry => size entry.1 entry.2).sum := by
  have split := Ledger.total_erase (Ledger.ofMap size items) key
  rw [← Ledger.ofMap_erase, Ledger.ofMap_lookup] at split
  simp only [Ledger.total, Ledger.ofMap, List.map_map] at split
  exact split

theorem bytes_erase (items : Items) (key : Bytes) :
    ((items.erase key).entries.map Engine.entrySize).sum +
        ((items.lookup key).map fun old => key.length + old.value.length).getD 0 =
      (items.entries.map Engine.entrySize).sum :=
  charged_erase (fun key item => key.length + item.value.length) items key

theorem bytes_insert (items : Items) (key value : Bytes) (exp : Option Time) :
    ((items.insert key ⟨value, exp⟩).entries.map Engine.entrySize).sum =
      ((items.erase key).entries.map Engine.entrySize).sum + (key.length + value.length) := by
  rw [AList.entries_insert, List.map_cons, List.sum_cons, Nat.add_comm]
  rfl

namespace Shared

def released (s : Shared) : Nat := (s.flight.map Flight.released).sum

def promised (s : Shared) : Nat := (s.flight.map Flight.promised).sum

def owed (s : Shared) : Int := (s.flight.map Flight.owed).sum

def alone (s : Shared) : Move → Bool
  | .call _ (.set _ _ _) | .call _ (.setFromBuffer _ _ _) | .call _ (.setRaw _ _ _) =>
    s.flight.all fun f => !f.writing
  | _ => true

def aloneRun (P : Primitives) : Shared → List Move → Bool
  | _, [] => true
  | s, move :: moves => s.alone move && aloneRun P (s.step P move) moves

/-- Stored and promised entries are within the ceiling; the counter lacks what is owed and shows
what is about to be released. -/
structure Within (limit : Nat) (s : Shared) : Prop where
  ceiling : s.maxBytes = limit
  bounded : s.storedBytes + s.released + s.promised ≤ limit
  counter : ((s.allocatedBytes : Int) + s.owed - s.storedBytes - s.released) % 2 ^ 64 = 0
  word : s.allocatedBytes < 2 ^ 64

section
variable {P : Primitives} {limit : Nat} {s : Shared}

theorem settled_of_alone (alone : (s.flight.all fun f => !f.writing) = true) :
    s.promised = 0 ∧ s.owed = 0 := by
  have idle : ∀ f ∈ s.flight, f.promised = 0 ∧ f.owed = 0 := by
    intro f mem
    have quiet := List.all_eq_true.mp alone f mem
    cases f with
    | admitted key value exp => simp [Flight.writing] at quiet
    | stored newSize oldSize => simp [Flight.writing] at quiet
    | grown => exact ⟨rfl, rfl⟩
    | evicting key => exact ⟨rfl, rfl⟩
    | removed size => exact ⟨rfl, rfl⟩
    | shrunk => exact ⟨rfl, rfl⟩
  constructor
  · apply List.sum_eq_zero
    intro promised mem
    obtain ⟨f, found, rfl⟩ := List.mem_map.mp mem
    exact (idle f found).1
  · apply List.sum_eq_zero
    intro owed mem
    obtain ⟨f, found, rfl⟩ := List.mem_map.mp mem
    exact (idle f found).2

theorem Within.exact (within : s.Within limit) (small : limit < 2 ^ 64)
    (alone : (s.flight.all fun f => !f.writing) = true) :
    s.allocatedBytes = s.storedBytes + s.released := by
  have counter := within.counter
  have bounded := within.bounded
  have word := within.word
  rw [(settled_of_alone alone).2] at counter
  omega

theorem Within.admitted (within : s.Within limit) (positive : 0 < limit)
    (alone : (s.flight.all fun f => !f.writing) = true) {key value : Bytes}
    (small : key.length + value.length + limit < 2 ^ 64)
    (room : s.full (key.length + value.length) = false) (draws : Nat) (exp : Option Time) :
    ({ s with draws := draws }.admitted key value exp).Within limit := by
  have exact := within.exact (by omega) alone
  have nothing := (settled_of_alone alone).1
  have bounded := within.bounded
  have ceiling := within.ceiling
  simp only [full, addUint64, ceiling, Bool.and_eq_false_iff, decide_eq_false_iff_not] at room
  constructor
  · exact ceiling
  · have same : ({ s with draws := draws }.admitted key value exp).released = s.released := by
      simp [released, Shared.admitted, Flight.released]
    have grown : ({ s with draws := draws }.admitted key value exp).promised =
        s.promised + (key.length + value.length) := by
      simp [promised, Shared.admitted, Flight.promised]
    have items : ({ s with draws := draws }.admitted key value exp).storedBytes = s.storedBytes := rfl
    rw [same, grown, items]
    omega
  · have same : ({ s with draws := draws }.admitted key value exp).released = s.released := by
      simp [released, Shared.admitted, Flight.released]
    have owes : ({ s with draws := draws }.admitted key value exp).owed = s.owed := by
      simp [owed, Shared.admitted, Flight.owed]
    rw [same, owes]
    exact within.counter
  · exact within.word

theorem Within.take (within : s.Within limit) {key : Bytes} {item : Item}
    (found : s.items.lookup key = some item) : (s.take key item).Within limit := by
  have erased := bytes_erase s.items key
  rw [found, Option.map_some, Option.getD_some] at erased
  have bytes : (s.take key item).storedBytes + (key.length + item.value.length) =
      s.storedBytes := erased
  have released : (s.take key item).released =
      s.released + (key.length + item.value.length) := by
    simp [Shared.released, Shared.take, Flight.released]
  have promised : (s.take key item).promised = s.promised := by
    simp [Shared.promised, Shared.take, Flight.promised]
  have owed : (s.take key item).owed = s.owed := by
    simp [Shared.owed, Shared.take, Flight.owed]
  have bounded := within.bounded
  have counter := within.counter
  constructor
  · exact within.ceiling
  · omega
  · rw [owed]
    change ((s.allocatedBytes : Int) + s.owed - (s.take key item).storedBytes -
      (s.take key item).released) % 2 ^ 64 = 0
    omega
  · exact within.word

theorem Within.evicting (within : s.Within limit) (key : Bytes) :
    Within limit { s with flight := s.flight ++ [.evicting key] } := by
  constructor
  · exact within.ceiling
  · simpa [storedBytes, released, promised, Flight.released, Flight.promised]
      using within.bounded
  · simpa [storedBytes, released, owed, Flight.released, Flight.owed] using within.counter
  · exact within.word

theorem expiredItem_found {now : Time} {key : Bytes} {item : Item}
    (found : s.expiredItem now key = some item) : s.items.lookup key = some item := by
  rw [expiredItem, Option.filter_eq_some_iff] at found
  exact found.1

theorem Within.replace (within : s.Within limit) {s' : Shared} {before after rest : List Flight}
    {f : Flight} (split : s.flight = before ++ f :: after)
    (flight : s'.flight = before ++ rest ++ after) (ceiling : s'.maxBytes = s.maxBytes)
    (word : s'.allocatedBytes < 2 ^ 64)
    (bytes : s'.storedBytes + (rest.map Flight.released).sum + (rest.map Flight.promised).sum ≤
      s.storedBytes + f.released + f.promised)
    (counter : ((s'.allocatedBytes + (rest.map Flight.owed).sum - s'.storedBytes -
        (rest.map Flight.released).sum) -
      (s.allocatedBytes + f.owed - s.storedBytes - f.released) : Int) % 2 ^ 64 = 0) :
    s'.Within limit := by
  have bounded := within.bounded
  have before_counter := within.counter
  simp only [released, promised, owed, split, List.map_append, List.map_cons, List.sum_append,
    List.sum_cons] at bounded before_counter
  constructor
  · exact ceiling.trans within.ceiling
  · simp only [released, promised, flight, List.map_append, List.sum_append]
    omega
  · simp only [released, owed, flight, List.map_append, List.sum_append]
    omega
  · exact word

theorem Within.exchange (within : s.Within limit) {s' : Shared} {before after : List Flight}
    {f g : Flight} (split : s.flight = before ++ f :: after)
    (flight : s'.flight = before ++ [g] ++ after) (ceiling : s'.maxBytes = s.maxBytes)
    (word : s'.allocatedBytes < 2 ^ 64)
    (bytes : s'.storedBytes + g.released + g.promised ≤ s.storedBytes + f.released + f.promised)
    (counter : ((s'.allocatedBytes + g.owed - s'.storedBytes - g.released) -
      (s.allocatedBytes + f.owed - s.storedBytes - f.released) : Int) % 2 ^ 64 = 0) :
    s'.Within limit := by
  refine within.replace split flight ceiling word ?_ ?_
  · simpa only [List.map_singleton, List.sum_singleton] using bytes
  · simpa only [List.map_singleton, List.sum_singleton] using counter

theorem Within.counted (within : s.Within limit) {f : Flight} {before after rest : List Flight}
    {keyCount : Nat} (split : s.flight = before ++ f :: after)
    (flight : rest = before ++ [] ++ after) (nothing : f.released = 0) (settled : f.owed = 0)
    (unpromised : f.promised = 0) :
    Within limit { s with keyCount := keyCount, flight := rest } := by
  refine within.replace split flight rfl within.word ?_ ?_
  · simp [storedBytes, nothing, unpromised]
  · simp [storedBytes, nothing, settled]

theorem beginSet_crypto (now : Time) (key value : Bytes) (ttl : Duration) :
    (s.beginSet P now key value ttl).crypto = s.crypto := by
  unfold beginSet
  split
  · rfl
  · split <;> rfl

theorem begin_crypto (now : Time) (c : Call) : (s.begin P now c).crypto = s.crypto := by
  cases c with
  | set key value ttl => exact beginSet_crypto now key value ttl
  | setFromBuffer buf keyLen ttl =>
    simp only [Shared.begin]
    split
    · rfl
    · split
      · exact beginSet_crypto now _ _ ttl
      · split <;> rfl
  | setRaw key value ttl => simp only [Shared.begin]; split <;> rfl
  | delete key => simp only [Shared.begin]; split <;> rfl
  | get key =>
    simp only [Shared.begin]
    split
    · rfl
    · split <;> rfl

theorem advance_crypto (now : Time) (n : Nat) : (s.advance now n).crypto = s.crypto := by
  unfold advance
  split
  case h_6 => split <;> rfl
  all_goals rfl

theorem step_crypto (move : Move) : (s.step P move).crypto = s.crypto := by
  cases move with
  | call now c => exact begin_crypto now c
  | evict now key => simp only [Shared.step]; split <;> rfl
  | advance now n => exact advance_crypto now n

theorem Within.advance (within : s.Within limit) (now : Time) (n : Nat) :
    (s.advance now n).Within limit := by
  unfold Shared.advance
  cases found : s.flight[n]? with
  | none => exact within
  | some f =>
    obtain ⟨before, after, flight, set, erase⟩ := flight_split found
    have word := within.word
    cases f with
    | admitted key value exp =>
      have erased := bytes_erase s.items key
      have inserted := bytes_insert s.items key value exp
      refine within.exchange flight (set _) rfl word ?_ ?_
      · simp only [storedBytes, Flight.released, Flight.promised]
        omega
      · simp only [storedBytes, Flight.released, Flight.owed]
        omega
    | stored newSize oldSize =>
      cases oldSize with
      | none =>
        refine within.exchange flight (set _) rfl (Nat.mod_lt _ (by decide)) ?_ ?_
        · exact Nat.le_refl _
        · simp only [storedBytes, addUint64, Flight.released, Flight.owed, Option.getD_none]
          omega
      | some oldSize =>
        obtain ⟨small, adjusted⟩ := adjust_spec word newSize oldSize
        refine within.replace flight erase rfl small ?_ ?_
        · exact Nat.le_refl _
        · simp only [storedBytes, List.map_nil, List.sum_nil, Flight.released, Flight.owed,
            Option.getD_some]
          omega
    | grown => exact within.counted flight erase rfl rfl rfl
    | evicting key =>
      simp only
      cases here : s.expiredItem now key with
      | none => exact within.counted flight erase rfl rfl rfl
      | some item =>
        have erased := bytes_erase s.items key
        rw [expiredItem_found here, Option.map_some, Option.getD_some] at erased
        refine within.exchange flight (set _) rfl word ?_ ?_
        · simp only [storedBytes, Flight.released, Flight.promised]
          omega
        · simp only [storedBytes, Flight.released, Flight.owed]
          omega
    | removed size =>
      refine within.exchange flight (set _) rfl (Nat.mod_lt _ (by decide)) ?_ ?_
      · simp only [storedBytes, Flight.released, Flight.promised]
        omega
      · simp only [storedBytes, subUint64, Flight.released, Flight.owed]
        omega
    | shrunk => exact within.counted flight erase rfl rfl rfl

theorem Within.beginSet (law : P.Lawful) (within : s.Within limit) (positive : 0 < limit)
    (alone : (s.flight.all fun f => !f.writing) = true) {key value : Bytes}
    (small : Engine.charge s.crypto key value + limit < 2 ^ 64) (now : Time) (ttl : Duration) :
    (s.beginSet P now key value ttl).Within limit := by
  have size := s.crypto.encryptInPlace_length law s.draws value
  unfold Shared.beginSet
  cases room : s.full (key.length + s.crypto.storedSize value.length) with
  | true => exact within
  | false =>
    rw [← size] at room
    rw [Engine.charge, ← size] at small
    simp only [Bool.false_eq_true, ↓reduceIte]
    by_cases enabled : s.crypto.enabled = true
    · rw [if_pos enabled]
      exact within.admitted positive alone small room (s.draws + 1) _
    · rw [if_neg enabled]
      rw [CryptoEngine.encryptInPlace_plain (Bool.not_eq_true _ ▸ enabled)] at small room
      exact within.admitted positive alone small room s.draws _

end

end Shared

def Call.size (crypto : CryptoEngine) : Call → Nat
  | .set key value _ => Engine.charge crypto key value
  | .setFromBuffer buf _ _ => crypto.storedSize buf.length
  | .setRaw key value _ => key.length + value.length
  | _ => 0

def Move.size (crypto : CryptoEngine) : Move → Nat
  | .call _ c => c.size crypto
  | _ => 0

namespace Shared

section
variable {P : Primitives} {limit : Nat} {s : Shared}

theorem Within.begin (law : P.Lawful) (within : s.Within limit) (positive : 0 < limit)
    (now : Time) (c : Call) (alone : s.alone (.call now c) = true)
    (small : c.size s.crypto + limit < 2 ^ 64) : (s.begin P now c).Within limit := by
  cases c with
  | set key value ttl => exact within.beginSet law positive alone small now ttl
  | setFromBuffer buf keyLen ttl =>
    simp only [Shared.begin]
    by_cases invalid : keyLen < 0 ∨ buf.length < keyLen
    · rw [if_pos invalid]
      exact within
    · rw [if_neg invalid]
      have parts : (buf.take keyLen.toNat).length + (buf.drop keyLen.toNat).length = buf.length := by
        rw [← List.length_append, List.take_append_drop]
      simp only [Call.size, CryptoEngine.storedSize] at small
      by_cases enabled : s.crypto.enabled = true
      · rw [if_pos enabled]
        refine within.beginSet law positive alone ?_ now ttl
        simp only [Engine.charge, CryptoEngine.storedSize, if_pos enabled] at small ⊢
        omega
      · rw [if_neg enabled] at small ⊢
        cases room : s.full buf.length with
        | true => exact within
        | false =>
          rw [← parts] at small room
          exact within.admitted positive alone small room s.draws _
  | setRaw key value ttl =>
    simp only [Shared.begin]
    cases room : s.full (key.length + value.length) with
    | true => exact within
    | false => exact within.admitted positive alone small room s.draws _
  | delete key =>
    simp only [Shared.begin]
    cases found : s.items.lookup key with
    | none => exact within
    | some item => exact within.take found
  | get key =>
    simp only [Shared.begin]
    cases found : s.items.lookup key with
    | none => exact within
    | some item =>
      simp only
      by_cases gone : expired now item.expiration = true
      · rw [if_pos gone]
        exact within.evicting key
      · rw [if_neg gone]
        exact within

theorem Within.step (law : P.Lawful) (within : s.Within limit) (positive : 0 < limit)
    (move : Move) (alone : s.alone move = true) (small : move.size s.crypto + limit < 2 ^ 64) :
    (s.step P move).Within limit := by
  cases move with
  | call now c => exact within.begin law positive now c alone small
  | evict now key =>
    simp only [Shared.step]
    cases found : s.expiredItem now key with
    | none => exact within
    | some item => exact within.take (expiredItem_found found)
  | advance now n => exact within.advance now n

theorem Within.run (law : P.Lawful) (positive : 0 < limit) (moves : List Move)
    (within : s.Within limit) (alone : s.aloneRun P moves = true)
    (small : ∀ move ∈ moves, move.size s.crypto + limit < 2 ^ 64) :
    (s.run P moves).Within limit := by
  induction moves generalizing s with
  | nil => exact within
  | cons move moves ih =>
    rw [aloneRun, Bool.and_eq_true] at alone
    have first := small move List.mem_cons_self
    apply ih (within.step law positive move alone.1 first) alone.2
    intro later mem
    rw [step_crypto]
    exact small later (List.mem_cons_of_mem move mem)

theorem within_ofEngine {e : Engine} (accounted : e.Accounted) (positive : 0 < e.maxBytes)
    (word : e.maxBytes < 2 ^ 64) : (ofEngine e).Within e.maxBytes := by
  have total := accounted.allocated.trans e.ledger_total
  have within := accounted.within
  have stored : (ofEngine e).storedBytes = e.allocatedBytes := total.symm
  constructor
  · rfl
  · change (ofEngine e).storedBytes + 0 + 0 ≤ e.maxBytes
    omega
  · change (((e.allocatedBytes % 2 ^ 64 : Nat) : Int) + 0 - (ofEngine e).storedBytes -
      (0 : Nat)) % 2 ^ 64 = 0
    omega
  · exact Nat.mod_lt _ (by decide)

end

end Shared

def Shared.finish (now : Time) (s : Shared) : Shared :=
  ((s.advance now 0).advance now 0).advance now 0

section
variable {P : Primitives} {now : Time} {e : Engine}

theorem Shared.full_ofEngine {size : Nat} (word : e.allocatedBytes + size < 2 ^ 64) :
    (Shared.ofEngine e).full size = e.full size := by
  have sum : addUint64 (e.allocatedBytes % 2 ^ 64) size = e.allocatedBytes + size := by
    simp only [addUint64]
    omega
  simp only [Shared.full, Engine.full, Shared.ofEngine, sum]
  rfl

@[simp] theorem Shared.ofEngine_register (key : Bytes) (ttl : Duration) :
    Shared.ofEngine (e.register key ttl) = Shared.ofEngine e := by
  unfold Engine.register
  split <;> rfl

theorem Engine.Accounted.entry_le (accounted : e.Accounted) {key : Bytes} {item : Item}
    (found : e.items.lookup key = some item) :
    key.length + item.value.length ≤ e.allocatedBytes := by
  have erased := bytes_erase e.items key
  rw [found, Option.map_some, Option.getD_some, ← e.ledger_total, ← accounted.allocated] at erased
  omega

theorem Shared.put_alone (accounted : e.Accounted) (key value : Bytes) (exp : Option Time)
    (draws : Nat) :
    ({ Shared.ofEngine e with draws := draws }.admitted key value exp).finish now =
      Shared.ofEngine ({ e with draws := draws }.put key value exp) := by
  cases found : e.items.lookup key with
  | none =>
    simp [Shared.admitted, Shared.finish, Shared.advance, Shared.ofEngine, Engine.put, found,
      addUint64]
  | some old =>
    have exact := adjust_exact (accounted.entry_le found) (key.length + value.length)
    simp only [Shared.admitted, Shared.finish, Shared.advance, Shared.ofEngine, Engine.put, found,
      exact, List.nil_append, List.getElem?_nil, List.getElem?_cons_zero, List.set_cons_zero,
      Option.map_some, List.eraseIdx_cons_zero, Option.isSome_some, ↓reduceIte]

theorem Shared.remove_alone (accounted : e.Accounted) (counted : e.keyCount = e.items.entries.length)
    {key : Bytes} {item : Item} (found : e.items.lookup key = some item) :
    (((Shared.ofEngine e).take key item).advance now 0).advance now 0 =
      Shared.ofEngine (e.remove key item) := by
  have charged := accounted.entry_le found
  have some_key : 0 < e.items.entries.length :=
    List.length_pos_of_mem (AList.mem_lookup_iff.mp found)
  have bytes : subUint64 (e.allocatedBytes % 2 ^ 64) (key.length + item.value.length) =
      (e.allocatedBytes - (key.length + item.value.length)) % 2 ^ 64 := by
    simp only [subUint64]
    omega
  have keys : subUint64 (e.keyCount % 2 ^ 64) 1 = (e.keyCount - 1) % 2 ^ 64 := by
    simp only [subUint64]
    omega
  simp only [Shared.take, Shared.advance, Shared.ofEngine, Engine.remove, Engine.releaseKey,
    List.nil_append, List.getElem?_cons_zero, List.set_cons_zero, List.eraseIdx_cons_zero, bytes,
    keys]

theorem Shared.ofEngine_items : (Shared.ofEngine e).items = e.items := rfl

theorem Shared.set_alone (accounted : e.Accounted) {key value : Bytes} (ttl : Duration)
    (word : e.allocatedBytes + Engine.charge e.crypto key value < 2 ^ 64) :
    ((Shared.ofEngine e).beginSet P now key value ttl).finish now =
      Shared.ofEngine (e.set P now key value ttl).1 := by
  have check : (Shared.ofEngine e).full
      (key.length + (Shared.ofEngine e).crypto.storedSize value.length) =
        e.full (key.length + e.crypto.storedSize value.length) := Shared.full_ofEngine word
  simp only [Shared.beginSet, Engine.set, check]
  cases e.full (key.length + e.crypto.storedSize value.length) with
  | true => rfl
  | false =>
    simp only [Bool.false_eq_true, ↓reduceIte]
    by_cases enabled : e.crypto.enabled = true
    · rw [if_pos enabled, if_pos (show (Shared.ofEngine e).crypto.enabled = true from enabled),
        Shared.ofEngine_register]
      exact Shared.put_alone accounted key _ (expiry now ttl) (e.draws + 1)
    · rw [if_neg enabled, if_neg (show ¬(Shared.ofEngine e).crypto.enabled = true from enabled),
        Shared.ofEngine_register]
      exact Shared.put_alone accounted key value (expiry now ttl) e.draws

theorem Shared.get_alone (accounted : e.Accounted)
    (counted : e.keyCount = e.items.entries.length) (key : Bytes) :
    ((Shared.ofEngine e).begin P now (.get key)).finish now =
      Shared.ofEngine (e.get P now key).1 := by
  simp only [Shared.begin, Engine.get, Shared.ofEngine_items]
  cases found : e.items.lookup key with
  | none => rfl
  | some item =>
    cases gone : expired now item.expiration with
    | false =>
      simp only [gone, Bool.false_eq_true, ↓reduceIte]
      by_cases enabled : e.crypto.enabled = true
      · rw [if_pos enabled]
        cases e.crypto.decryptInPlace P item.value <;> rfl
      · rw [if_neg enabled]
        rfl
    | true =>
      have here : (e.items.lookup key).filter (fun item => expired now item.expiration) =
          some item := by
        simp [found, gone]
      have taken : Shared.advance now
          { Shared.ofEngine e with flight := (Shared.ofEngine e).flight ++ [.evicting key] } 0 =
            (Shared.ofEngine e).take key item := by
        simp [Shared.advance, Shared.take, Shared.expiredItem, here, Shared.ofEngine]
      have evict : e.deleteIfExpired now key = (e.remove key item, true) := by
        simp [Engine.deleteIfExpired, found, gone]
      simp only [gone, ↓reduceIte, evict]
      rw [Shared.finish]
      exact (congrArg (fun s => Shared.advance now (Shared.advance now s 0) 0) taken).trans
        (Shared.remove_alone accounted counted found)

/-- A call that nothing comes between does what the engine does in one step. -/
theorem Shared.call_alone (accounted : e.Accounted)
    (counted : e.keyCount = e.items.entries.length) (c : Call)
    (word : e.allocatedBytes + c.size e.crypto < 2 ^ 64) :
    ((Shared.ofEngine e).begin P now c).finish now =
      Shared.ofEngine (e.call P now c).1 := by
  cases c with
  | set key value ttl => exact Shared.set_alone accounted ttl word
  | setFromBuffer buf keyLen ttl =>
    simp only [Shared.begin, Engine.call, Engine.setFromBuffer]
    by_cases invalid : keyLen < 0 ∨ buf.length < keyLen
    · rw [if_pos invalid, if_pos invalid]
      rfl
    · rw [if_neg invalid, if_neg invalid]
      simp only [Call.size, CryptoEngine.storedSize] at word
      by_cases enabled : e.crypto.enabled = true
      · rw [if_pos enabled] at word ⊢
        rw [if_pos (show (Shared.ofEngine e).crypto.enabled = true from enabled)]
        apply Shared.set_alone accounted ttl
        simp only [Engine.charge, CryptoEngine.storedSize, if_pos enabled, List.length_take,
          List.length_drop]
        omega
      · rw [if_neg enabled] at word ⊢
        rw [if_neg (show ¬(Shared.ofEngine e).crypto.enabled = true from enabled),
          Shared.full_ofEngine word]
        cases e.full buf.length with
        | true => rfl
        | false =>
          simp only [Bool.false_eq_true, ↓reduceIte, Shared.ofEngine_register]
          exact Shared.put_alone accounted _ _ (expiry now ttl) e.draws
  | setRaw key value ttl =>
    simp only [Shared.begin, Engine.call, Engine.setRaw]
    rw [Call.size] at word
    rw [Shared.full_ofEngine word]
    cases e.full (key.length + value.length) with
    | true => rfl
    | false =>
      simp only [Bool.false_eq_true, ↓reduceIte, Shared.ofEngine_register]
      exact Shared.put_alone accounted key value (expiry now ttl) e.draws
  | delete key =>
    simp only [Shared.begin, Engine.call, Engine.delete, Shared.ofEngine_items]
    cases found : e.items.lookup key with
    | none => rfl
    | some item =>
      simp only [Shared.finish]
      rw [Shared.remove_alone accounted counted found]
      cases expired now item.expiration <;> rfl
  | get key => exact Shared.get_alone accounted counted key

end

theorem Shared.call_alone_set :
    ((Shared.ofEngine (Engine.new 0 0 10 .passThrough 0)).begin .tagged 5
      (.set [97] [1] 0)).finish 5 =
      Shared.ofEngine ((Engine.new 0 0 10 .passThrough 0).call .tagged 5 (.set [97] [1] 0)).1 :=
  Shared.call_alone (Engine.new_accounted 0 0 10 _ 0) rfl (.set [97] [1] 0) (by decide)

/-- Setters that do not overlap one another stay within the ceiling, whatever
deletions and evictions overlap them. -/
theorem setters_apart_within_ceiling {P : Primitives} (law : P.Lawful) (e : Engine)
    (accounted : e.Accounted) (positive : 0 < e.maxBytes) (moves : List Move)
    (apart : (Shared.ofEngine e).aloneRun P moves = true)
    (small : ∀ move ∈ moves, move.size e.crypto + e.maxBytes < 2 ^ 64)
    (word : e.maxBytes < 2 ^ 64) :
    ((Shared.ofEngine e).run P moves).storedBytes ≤ e.maxBytes := by
  have within := (Shared.within_ofEngine accounted positive word).run law positive moves apart small
  have bounded := within.bounded
  omega

/-- The second setter checks before a deletion has lowered the counter and the first has counted
its key. -/
theorem setters_apart_within_ceiling_ten_bytes :
    let e := Engine.new 0 0 10 .passThrough 0
    let moves : List Move :=
      [.call 1 (.set [97] [1, 2, 3] 0), .advance 1 0, .advance 1 0, .call 2 (.delete [97]),
        .call 3 (.set [98] [4, 5, 6, 7] 0), .advance 3 1, .advance 3 2, .advance 3 2, .evict 4 [98],
        .advance 4 0, .advance 4 0]
    (Shared.ofEngine e).aloneRun .tagged moves = true ∧
      ((Shared.ofEngine e).run .tagged moves).storedBytes = 5 ∧
      ((Shared.ofEngine e).run .tagged moves).storedBytes ≤ 10 :=
  ⟨by decide +kernel, by decide +kernel,
    setters_apart_within_ceiling Primitives.tagged_lawful (Engine.new 0 0 10 .passThrough 0)
      (Engine.new_accounted 0 0 10 .passThrough 0) (by decide) _ (by decide +kernel)
      (by decide +kernel) (by decide)⟩

theorem overlapping_setters_exceed_ceiling :
    let e := Engine.new 0 0 10 .passThrough 0
    let moves : List Move :=
      [.call 1 (.set [97] [1, 2, 3, 4, 5] 0), .call 1 (.set [98] [1, 2, 3, 4, 5] 0),
        .advance 1 0, .advance 1 1, .advance 1 0, .advance 1 0, .advance 1 0, .advance 1 0]
    e.Accounted ∧ e.maxBytes = 10 ∧
      ((Shared.ofEngine e).run .tagged moves).flight = [] ∧
      ((Shared.ofEngine e).run .tagged moves).storedBytes = 12 :=
  ⟨Engine.new_accounted 0 0 10 .passThrough 0, rfl, by decide +kernel, by decide +kernel⟩

end Tellstone
