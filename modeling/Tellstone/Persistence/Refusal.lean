import Tellstone.Persistence.Restore
import Tellstone.Storage.Admission

/-! A snapshot load that fails: an entry in the middle of the list may find no room, and those
before it stay. -/
namespace Tellstone
open ByteStream ExpiringMap Framing

/-- The first pass: the entries of a file that is well formed and carries its checksum. -/
def snapshotEntries (P : Primitives) (file fp : Bytes) : Except Error (List DecodedEntry) :=
  match readFull snapBaseHeader file with
  | none => .error .snapshotHeader
  | some (baseHdr, rest) =>
    if baseHdr.take 4 ≠ snapMagic then .error (.snapshotMagic (baseHdr.take 4))
    else
      let version := uint ((baseHdr.drop 4).take 4)
      if version ≠ snapVersion1 ∧ version ≠ snapVersion2 then .error (.snapshotVersion version)
      else
        let fingerprint :=
          if version = snapVersion2 then readFull 16 rest else some (zeroFingerprint, rest)
        match fingerprint with
        | none => .error .snapshotFingerprintRead
        | some (fileFingerprint, rest) =>
          if fileFingerprint ≠ fp then .error .snapshotFingerprint
          else
            let hashed := baseHdr.take 8 ++ putUint 8 0 ++ (baseHdr.drop 16).take 8 ++ putUint 8 0 ++
              (if version = snapVersion2 then fileFingerprint else [])
            let headerBytes := if version = snapVersion2 then snapHeader else snapBaseHeader
            match loop entryTurn (fun s => s.rest.length)
              ⟨rest, (file.length : Int) - headerBytes, hashed, []⟩ with
            | (_, some err) => .error err
            | (scan, none) =>
              let fileChecksum := uint ((baseHdr.drop 24).take 8)
              let computed := (P.xxhash scan.hashed).toNat
              if computed ≠ fileChecksum then .error (.snapshotChecksum fileChecksum computed)
              else .ok scan.entries

theorem snapshotRead_eq (P : Primitives) (now : Time) (file : Bytes) (e : Engine) (fp : Bytes) :
    snapshotRead P now file e fp =
      match snapshotEntries P file fp with
      | .error err => (e, some err)
      | .ok entries => foldUntil (restoreEntry P now) e entries := by
  unfold snapshotRead snapshotEntries
  rcases readFull snapBaseHeader file with _ | ⟨baseHdr, rest⟩
  · rfl
  simp only
  split
  · rfl
  split
  · rfl
  generalize (if uint ((baseHdr.drop 4).take 4) = snapVersion2 then readFull 16 rest
    else some (zeroFingerprint, rest)) = fingerprint
  rcases fingerprint with _ | ⟨fileFingerprint, body⟩
  · rfl
  simp only
  split
  · rfl
  generalize loop entryTurn (fun s => s.rest.length) _ = outcome
  rcases outcome with ⟨scan, _ | err⟩
  · simp only [restoreScan]
    split
    · rfl
    · rfl
  · rfl

def DecodedEntry.Sound (d : DecodedEntry) : Prop := d.keyLen ≤ d.kvBuf.length

theorem entryTurn_sound (s : SnapshotScan) (sound : ∀ d ∈ s.entries, d.Sound) :
    ∀ d ∈ (entryTurn s).state.entries, d.Sound := by
  rcases readHeader : readFull 16 s.rest with _ | ⟨entryBuf, rest⟩
  · simp only [entryTurn, readHeader]
    split <;> exact sound
  simp only [entryTurn, readHeader]
  split
  · exact sound
  rcases readBuf : readFull (headerKeyLen entryBuf + headerValLen entryBuf) rest with _ | ⟨buf, _⟩
  · exact sound
  · intro d mem
    rcases List.mem_append.mp mem with earlier | last
    · exact sound d earlier
    · obtain rfl := List.mem_singleton.mp last
      have size := (readFull_some readBuf).2
      simp only [DecodedEntry.Sound]
      omega

theorem scan_sound {rest hashed : Bytes} {remaining : Int} {scan : SnapshotScan}
    {err : Option Error} (ran : loop entryTurn (fun s => s.rest.length)
      ⟨rest, remaining, hashed, []⟩ = (scan, err)) : ∀ d ∈ scan.entries, d.Sound := by
  have scanned := loop_invariant (fun s : SnapshotScan => ∀ d ∈ s.entries, d.Sound)
    entryTurn_sound (fun s => s.rest.length) ⟨rest, remaining, hashed, []⟩ (by simp)
  rwa [ran] at scanned

theorem snapshotEntries_sound {P : Primitives} {file fp : Bytes} {entries : List DecodedEntry}
    (valid : snapshotEntries P file fp = .ok entries) : ∀ d ∈ entries, d.Sound := by
  unfold snapshotEntries at valid
  split at valid
  · cases valid
  simp only at valid
  split at valid
  · cases valid
  split at valid
  · cases valid
  split at valid
  · cases valid
  split at valid
  · cases valid
  split at valid
  · cases valid
  rename_i scan whole
  split at valid
  · cases valid
  obtain rfl := Except.ok.inj valid
  exact scan_sound whole

def DecodedEntry.update (now : Time) (d : DecodedEntry) : Option (Update Bytes Bytes) :=
  let key := d.kvBuf.take d.keyLen
  let value := d.kvBuf.drop d.keyLen
  if d.ttlNano = 0 then some (.set key value none)
  else if timeUntil d.ttlNano now ≤ 0 then none
  else some (.set key value (expiry now (timeUntil d.ttlNano now)))

abbrev chargeOf (key value : Bytes) : Nat := key.length + value.length

section
variable {P : Primitives} {now : Time} {e : Engine} {d : DecodedEntry}

theorem restoreEntry_expired (gone : d.update now = none) : restoreEntry P now e d = (e, none) := by
  unfold DecodedEntry.update at gone
  unfold restoreEntry
  simp only at gone
  split at gone
  · cases gone
  · rename_i finite
    split at gone
    · rename_i past
      simp [finite, past]
    · cases gone

theorem restoreEntry_alive (P : Primitives) (e : Engine) {u : Update Bytes Bytes}
    (alive : d.update now = some u) :
    ∃ ttl, u = .set (d.kvBuf.take d.keyLen) (d.kvBuf.drop d.keyLen) (expiry now ttl) ∧
      restoreEntry P now e d = restoreValue P now e d ttl := by
  unfold DecodedEntry.update at alive
  unfold restoreEntry
  simp only at alive
  split at alive
  · rename_i forever
    refine ⟨0, (Option.some.inj alive).symm, ?_⟩
    simp [forever]
  · rename_i finite
    split at alive
    · cases alive
    · rename_i ahead
      refine ⟨_, (Option.some.inj alive).symm, ?_⟩
      simp [finite, ahead]

theorem restoreEntry_cases (P : Primitives) (e : Engine) {key value : Bytes} {exp : Option Time}
    (sound : d.Sound) (alive : d.update now = some (.set key value exp)) :
    if e.full (chargeOf key value) then
      restoreEntry P now e d = (e, some (.snapshotSet .engineFull))
    else ∃ e', restoreEntry P now e d = (e', none) ∧ e.Puts key value exp e' := by
  obtain ⟨ttl, same, restored⟩ := restoreEntry_alive P e alive
  injection same with k v x
  subst k v x
  rw [restored]
  have shape : d = ⟨d.kvBuf.take d.keyLen ++ d.kvBuf.drop d.keyLen,
      (d.kvBuf.take d.keyLen).length, d.ttlNano⟩ := by
    rw [List.take_append_drop, List.length_take, Nat.min_eq_left sound]
  split
  · rename_i full
    rw [shape]
    exact restoreValue_full d.ttlNano ttl full
  · rename_i room
    have put := @restoreValue_room P now e _ _ d.ttlNano ttl (eq_false_of_ne_true room)
    rwa [← shape] at put

end

namespace Engine

def Tallies (e e' : Engine) : Prop :=
  e'.keyCount + e.items.entries.length = e.keyCount + e'.items.entries.length

section
variable {P : Primitives} {now : Time} {e : Engine} {key value : Bytes}

theorem put_tallies (exp : Option Time) : e.Tallies (e.put key value exp) := by
  simp only [Tallies, put]
  cases found : e.items.lookup key with
  | none =>
    have absent : key ∉ e.items := AList.lookup_eq_none.mp found
    rw [AList.entries_insert_of_notMem absent]
    simp
    omega
  | some old =>
    have present : key ∈ e.items.entries.keys := by
      rw [← List.dlookup_isSome]
      exact Option.isSome_iff_exists.mpr ⟨old, found⟩
    obtain ⟨b, front, back, -, whole, erased⟩ := List.exists_of_kerase present
    rw [AList.entries_insert, erased, whole]
    simp
    omega

theorem register_keyCount (ttl : Duration) : (e.register key ttl).keyCount = e.keyCount := by
  unfold register
  split <;> rfl

theorem stored_tallies (exp : Option Time) (ttl : Duration) :
    e.Tallies ((e.put key value exp).register key ttl) := by
  rw [Tallies, register_keyCount, register_items]
  exact put_tallies exp

theorem setRaw_tallies (ttl : Duration) : e.Tallies (e.setRaw now key value ttl).1 := by
  simp only [setRaw]
  split
  · rfl
  · rw [Tallies, register_keyCount, register_items]
    exact put_tallies (expiry now ttl)

end

end Engine

section
variable {P : Primitives} {now : Time} {e : Engine}

theorem restoreValue_tallies (d : DecodedEntry) (duration : Duration) :
    e.Tallies (restoreValue P now e d duration).1 := by
  simp only [restoreValue]
  cases on : e.crypto.enabled with
  | true => exact Engine.setRaw_tallies duration
  | false =>
    simp only [Engine.setFromBuffer, on, Bool.false_eq_true, ↓reduceIte]
    split
    · rfl
    · split
      · rfl
      · exact Engine.stored_tallies _ duration

theorem restoreEntry_tallies (d : DecodedEntry) : e.Tallies (restoreEntry P now e d).1 := by
  simp only [restoreEntry]
  split
  · split
    · rfl
    · exact restoreValue_tallies d _
  · exact restoreValue_tallies d 0

theorem restore_tallies (entries : List DecodedEntry) :
    e.Tallies (foldUntil (restoreEntry P now) e entries).1 := by
  apply foldUntil_invariant (fun e' _ => e.Tallies e')
  · intro e' d later tallies
    have step : e'.Tallies (restoreEntry P now e' d).1 := restoreEntry_tallies d
    simp only [Engine.Tallies] at tallies step ⊢
    omega
  · intro e' later tallies
    exact tallies
  · rfl

def updatesOf (now : Time) (entries : List DecodedEntry) : List (Update Bytes Bytes) :=
  entries.filterMap (DecodedEntry.update now)

/-- `e'` is `e` with one update carried out. -/
structure Engine.Takes (e : Engine) (u : Update Bytes Bytes) (e' : Engine) : Prop where
  accounted : e'.Accounted
  maxBytes : e'.maxBytes = e.maxBytes
  ledger : e'.ledger = Ledger.post chargeOf e.ledger u
  raw : e'.raw = u.apply e.raw

theorem restoreEntry_admits (P : Primitives) (accounted : e.Accounted) {d : DecodedEntry}
    (sound : d.Sound) {u : Update Bytes Bytes} (alive : d.update now = some u) :
    if Ledger.admits chargeOf e.maxBytes e.ledger [u] then
      ∃ e', restoreEntry P now e d = (e', none) ∧ e.Takes u e'
    else restoreEntry P now e d = (e, some (.snapshotSet .engineFull)) := by
  obtain ⟨ttl, rfl, -⟩ := restoreEntry_alive P e alive
  have cases := restoreEntry_cases P e sound alive
  rw [Ledger.admits, Ledger.admits, Bool.and_true, ← Bool.not_not (Ledger.room _ _ _),
    ← accounted.full_eq]
  cases full : e.full (chargeOf (d.kvBuf.take d.keyLen) (d.kvBuf.drop d.keyLen)) with
  | true => simpa [full] using cases
  | false =>
    rw [full, if_neg Bool.false_ne_true] at cases
    obtain ⟨e', restored, puts⟩ := cases
    rw [Bool.not_false, if_pos rfl]
    exact ⟨e', restored, puts.accounted accounted full, puts.maxBytes, puts.ledger,
      Engine.raw_insert puts.items⟩

theorem admits_cons (limit : Nat) (l : Ledger Bytes) (u : Update Bytes Bytes)
    (us : List (Update Bytes Bytes)) : Ledger.admits chargeOf limit l (u :: us) =
      (Ledger.admits chargeOf limit l [u] &&
        Ledger.admits chargeOf limit (Ledger.post chargeOf l u) us) :=
  Ledger.admits_append chargeOf limit l [u] us

theorem restore_admitted (accounted : e.Accounted) {entries : List DecodedEntry}
    (sound : ∀ d ∈ entries, d.Sound)
    (admitted : Ledger.admits chargeOf e.maxBytes e.ledger (updatesOf now entries) = true) :
    (foldUntil (restoreEntry P now) e entries).2 = none := by
  induction entries generalizing e with
  | nil => rfl
  | cons d entries ih =>
    have later : ∀ d ∈ entries, d.Sound := fun d mem => sound d (List.mem_cons_of_mem _ mem)
    cases alive : d.update now with
    | none =>
      rw [updatesOf, List.filterMap_cons_none alive] at admitted
      rw [foldUntil, restoreEntry_expired alive]
      exact ih accounted later admitted
    | some u =>
      rw [updatesOf, List.filterMap_cons_some alive, admits_cons, Bool.and_eq_true] at admitted
      have step := restoreEntry_admits P accounted (sound d List.mem_cons_self) alive
      rw [if_pos admitted.1] at step
      obtain ⟨e', restored, takes⟩ := step
      rw [foldUntil, restored]
      apply ih takes.accounted later
      rw [takes.maxBytes, takes.ledger]
      exact admitted.2

theorem restore_refused (accounted : e.Accounted) {entries : List DecodedEntry}
    (sound : ∀ d ∈ entries, d.Sound) {front back : List (Update Bytes Bytes)}
    {u : Update Bytes Bytes} (split : updatesOf now entries = front ++ u :: back)
    (admitted : Ledger.admits chargeOf e.maxBytes e.ledger front = true)
    (refused : Ledger.admits chargeOf e.maxBytes e.ledger (front ++ [u]) = false) :
    ∃ e', foldUntil (restoreEntry P now) e entries = (e', some (.snapshotSet .engineFull)) ∧
      e'.raw = Update.applyAll e.raw front ∧ e'.Accounted := by
  induction entries generalizing e front with
  | nil => simp [updatesOf] at split
  | cons d entries ih =>
    have later : ∀ d ∈ entries, d.Sound := fun d mem => sound d (List.mem_cons_of_mem _ mem)
    cases alive : d.update now with
    | none =>
      rw [updatesOf, List.filterMap_cons_none alive] at split
      rw [foldUntil, restoreEntry_expired alive]
      exact ih accounted later split admitted refused
    | some first =>
      rw [updatesOf, List.filterMap_cons_some alive] at split
      have step := restoreEntry_admits P accounted (sound d List.mem_cons_self) alive
      cases front with
      | nil =>
        obtain ⟨rfl, -⟩ := List.cons.inj split
        rw [List.nil_append] at refused
        rw [refused, if_neg Bool.false_ne_true] at step
        rw [foldUntil, step]
        exact ⟨e, rfl, rfl, accounted⟩
      | cons head front =>
        obtain ⟨rfl, others⟩ := List.cons.inj split
        rw [admits_cons, Bool.and_eq_true] at admitted
        rw [List.cons_append, admits_cons, admitted.1, Bool.true_and] at refused
        rw [if_pos admitted.1] at step
        obtain ⟨e', restored, takes⟩ := step
        rw [← takes.maxBytes, ← takes.ledger] at admitted refused
        obtain ⟨e'', ran, raw, accounted'⟩ := ih takes.accounted later others admitted.2 refused
        rw [foldUntil, restored]
        refine ⟨e'', ran, ?_, accounted'⟩
        rw [raw, takes.raw]
        rfl

theorem exists_refused {limit : Nat} {l : Ledger Bytes} {us : List (Update Bytes Bytes)}
    (refused : Ledger.admits chargeOf limit l us = false) :
    ∃ front u back, us = front ++ u :: back ∧ Ledger.admits chargeOf limit l front = true ∧
      Ledger.admits chargeOf limit l (front ++ [u]) = false := by
  induction us generalizing l with
  | nil => cases refused
  | cons u us ih =>
    cases first : Ledger.admits chargeOf limit l [u] with
    | false => exact ⟨[], u, us, rfl, rfl, first⟩
    | true =>
      rw [admits_cons, first, Bool.true_and] at refused
      obtain ⟨front, v, back, rfl, admitted, next⟩ := ih refused
      refine ⟨u :: front, v, back, rfl, ?_, ?_⟩
      · rw [admits_cons, first, admitted, Bool.true_and]
      · rw [List.cons_append, admits_cons, first, next, Bool.true_and]

end

/-- The entries and the two counters are the same. -/
structure Engine.Untouched (e e' : Engine) : Prop where
  items : ∀ key, e'.items.lookup key = e.items.lookup key
  allocatedBytes : e'.allocatedBytes = e.allocatedBytes
  keyCount : e'.keyCount = e.keyCount

theorem Engine.Untouched.raw {e e' : Engine} (untouched : e.Untouched e') : e'.raw = e.raw := by
  funext key
  rw [Engine.raw, Engine.raw, untouched.items]

theorem Engine.untouched_of_raw {e e' : Engine} (accounted : e.Accounted)
    (accounted' : e'.Accounted) (tallies : e.Tallies e') (same : e'.raw = e.raw) :
    e.Untouched e' := by
  have items (key : Bytes) : e'.items.lookup key = e.items.lookup key := by
    have entry := congrFun same key
    simp only [raw] at entry
    cases found : e.items.lookup key with
    | none => simpa [found] using entry
    | some item =>
      rw [found] at entry
      obtain ⟨item', found', fields⟩ := Option.map_eq_some_iff.mp entry
      obtain ⟨value, expiration⟩ := Prod.mk.inj fields
      rw [found']
      cases item
      cases item'
      simp only at value expiration
      rw [value, expiration]
  have perm : e'.items.entries.Perm e.items.entries := by
    apply List.lookup_ext e'.items.nodupKeys e.items.nodupKeys
    intro key item
    rw [show e'.items.entries.dlookup key = e.items.entries.dlookup key from items key]
  refine ⟨items, ?_, ?_⟩
  · rw [accounted.allocated, accounted'.allocated]
    exact Ledger.total_perm (Ledger.ofMap_perm _ perm)
  · have length := perm.length_eq
    simp only [Tallies] at tallies
    omega

/-- A failed load leaves the engine untouched exactly when the entries before the first that finds
no room say what it holds already. -/
theorem failed_load_untouched_iff {P : Primitives} (law : P.Lawful) {m : Machine}
    (reached : m.Reachable P) (now : Time) (file fp : Bytes) :
    (∀ err, (snapshotRead P now file m.engine fp).2 = some err →
      m.engine.Untouched (snapshotRead P now file m.engine fp).1) ↔
    ∀ entries front u back, snapshotEntries P file fp = .ok entries →
      updatesOf now entries = front ++ u :: back →
      Ledger.admits chargeOf m.engine.maxBytes m.engine.ledger front = true →
      Ledger.admits chargeOf m.engine.maxBytes m.engine.ledger (front ++ [u]) = false →
      Update.applyAll m.engine.raw front = m.engine.raw := by
  have accounted := reached.accounted law
  rw [snapshotRead_eq]
  cases valid : snapshotEntries P file fp with
  | error err =>
    constructor
    · intro _ entries front u back ok
      cases ok
    · intro _ _ _
      exact ⟨fun _ => rfl, rfl, rfl⟩
  | ok entries =>
    have sound := snapshotEntries_sound valid
    constructor
    · rintro untouched _ front u back ⟨⟩ split admitted refused
      obtain ⟨e', ran, raw, -⟩ := restore_refused (P := P) accounted sound split admitted refused
      simp only [ran] at untouched
      rw [← raw]
      exact (untouched _ rfl).raw
    · intro repeats err failed
      have refused : Ledger.admits chargeOf m.engine.maxBytes m.engine.ledger
          (updatesOf now entries) = false := by
        by_contra admitted
        have none := restore_admitted (P := P) accounted sound (eq_true_of_ne_false admitted)
        rw [none] at failed
        cases failed
      obtain ⟨front, u, back, split, admitted, next⟩ := exists_refused refused
      obtain ⟨e', ran, raw, accounted'⟩ :=
        restore_refused (P := P) accounted sound split admitted next
      have tallies : m.engine.Tallies (foldUntil (restoreEntry P now) m.engine entries).1 :=
        restore_tallies entries
      rw [ran] at tallies
      simp only [ran]
      exact Engine.untouched_of_raw accounted accounted' tallies
        (raw.trans (repeats entries front u back rfl split admitted next))

def twoEntries : List Record := [.set [107] [1] none, .set [108] [2] none]

def twoEntriesFile : Bytes :=
  snapshotFile .tagged 0 zeroFingerprint 2 (twoEntries.flatMap Record.bytes)

def Machine.narrow : Machine := .start (.new 0 0 3 .passThrough 0)

theorem failed_load_untouched_iff_narrow :
    (∀ err, (snapshotRead .tagged 1 twoEntriesFile Machine.narrow.engine zeroFingerprint).2 =
        some err →
      Machine.narrow.engine.Untouched
        (snapshotRead .tagged 1 twoEntriesFile Machine.narrow.engine zeroFingerprint).1) ↔
    ∀ entries front u back, snapshotEntries .tagged twoEntriesFile zeroFingerprint = .ok entries →
      updatesOf 1 entries = front ++ u :: back →
      Ledger.admits chargeOf Machine.narrow.engine.maxBytes Machine.narrow.engine.ledger front =
        true →
      Ledger.admits chargeOf Machine.narrow.engine.maxBytes Machine.narrow.engine.ledger
        (front ++ [u]) = false →
      Update.applyAll Machine.narrow.engine.raw front = Machine.narrow.engine.raw :=
  failed_load_untouched_iff Primitives.tagged_lawful (.start 0 0 3 .passThrough 0) 1 twoEntriesFile
    zeroFingerprint

theorem refused_load_keeps_entry :
    (snapshotRead .tagged 1 twoEntriesFile Machine.narrow.engine zeroFingerprint).2 =
        some (.snapshotSet .engineFull) ∧
      (snapshotRead .tagged 1 twoEntriesFile Machine.narrow.engine zeroFingerprint).1.items.lookup
        [107] = some ⟨[1], none⟩ ∧
      Machine.narrow.engine.items.lookup [107] = none := by
  have fits : ∀ r ∈ twoEntries, r.Fits := by
    intro r mem
    rcases List.mem_cons.mp mem with rfl | mem
    · exact ⟨by decide, by decide, by decide, by decide⟩
    · obtain rfl := List.mem_singleton.mp mem
      exact ⟨by decide, by decide, by decide, by decide⟩
  rw [twoEntriesFile, snapshotRead_file .tagged 1 0 Machine.narrow.engine rfl fits 2]
  decide

end Tellstone
