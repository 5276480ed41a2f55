import Tellstone.Persistence.Restore

/-! A snapshot as a whole: what becomes of a dump whose pipe is cut, and what a load makes of
a dump that was not. -/
namespace Tellstone
open ByteStream Framing

theorem childTurn_cut {tail : Bytes} (cut : Cut Record.bytes Record.Fits tail) (full : tail ≠ [])
    (body : Bytes) (keyCount : Nat) :
    childTurn ⟨tail, body, keyCount⟩ = .fail ⟨tail, body, keyCount⟩ .snapshotChild := by
  by_cases short : tail.length < 16
  · simp only [childTurn, readFull_short short, if_neg full]
  · obtain ⟨r, fits, readHeader, less⟩ := cut_header cut (by omega)
    simp only [childTurn, readHeader, headerKeyLen_header fits.short,
      headerValLen_header fits.short]
    by_cases key : (tail.drop 16).length < r.key.length
    · rw [readFull_short key]
    · rw [readFull, if_pos (by omega)]
      simp only
      have rest : ((tail.drop 16).drop r.key.length).length < r.value.length := by
        rw [List.length_drop]
        omega
      rw [readFull_short rest]

theorem snapshotChildWrite_cut (P : Primitives) (now : Time) (fingerprint : Bytes)
    {rs : List Record} (fits : ∀ r ∈ rs, r.Fits) {tail : Bytes}
    (cut : Cut Record.bytes Record.Fits tail) (full : tail ≠ []) :
    snapshotChildWrite P now (rs.flatMap Record.bytes ++ tail) fingerprint =
      .error .snapshotChild := by
  have frames := loop_frames childTurn_shrinks childTurn_eats rs
    (fun r mem => (fits r mem).short) ([], 0) tail
  simp only [foldUntil_child] at frames
  simp only [snapshotChildWrite, frames, loop_fail (childTurn_cut cut full _ _)]

namespace Storage

/-- A parent whose write fails closes the pipe before it kills the child, and one that dies kills
nobody; `killed` says that the kill came before the rename. -/
def childDump (P : Primitives) (now : Time) (order : MapOrder) (s : Storage) (e : Engine)
    (cut : Nat) (killed : Bool) : Storage × Option Error :=
  if killed then (s, some .snapshotChild)
  else
    match snapshotChildWrite P now ((serializeEngineToWriter now order e).take cut)
      (s.fingerprint P) with
    | .error err => (s, some err)
    | .ok file => ({ s with disk := { s.disk with snap := some file } }, none)

end Storage

def CutBetween (entries : List (Sigma fun _ : Bytes => Item)) (cut : Nat) : Prop :=
  ∃ k < entries.length,
    cut = (((entries.take k).map snapshotRecord).flatMap Record.bytes).length

section
variable {rs : List Record} {cut : Nat}

theorem take_between {k : Nat} (less : k < rs.length)
    (size : cut = ((rs.take k).flatMap Record.bytes).length) :
    (rs.flatMap Record.bytes).take cut = (rs.take k).flatMap Record.bytes ∧
      cut < (rs.flatMap Record.bytes).length := by
  have split : rs.flatMap Record.bytes =
      (rs.take k).flatMap Record.bytes ++ (rs.drop k).flatMap Record.bytes := by
    rw [← List.flatMap_append, List.take_append_drop]
  have next : 0 < ((rs.drop k).flatMap Record.bytes).length := by
    rw [List.drop_eq_getElem_cons less, List.flatMap_cons, List.length_append, Record.bytes_length]
    omega
  rw [split, List.length_append]
  exact ⟨List.take_left' size.symm, by omega⟩

theorem take_inside (fits : ∀ r ∈ rs, r.Fits) (less : cut < (rs.flatMap Record.bytes).length)
    (apart : ∀ k < rs.length, cut ≠ ((rs.take k).flatMap Record.bytes).length) :
    ∃ kept tail, (rs.flatMap Record.bytes).take cut = kept.flatMap Record.bytes ++ tail ∧
      kept <+: rs ∧ Cut Record.bytes Record.Fits tail ∧ tail ≠ [] := by
  obtain ⟨tail, split, torn⟩ := take_frames Record.bytes cut rs fits
  have start := whole_start (fun r : Record => r.bytes.length) cut rs
  refine ⟨_, tail, split, start, torn, ?_⟩
  rintro rfl
  have size := congrArg List.length split
  rw [List.length_take_of_le less.le, List.append_nil, List.prefix_iff_eq_take.mp start] at size
  by_cases all : (whole (fun r : Record => r.bytes.length) cut rs).length < rs.length
  · exact apart _ all size
  · rw [List.take_of_length_le (by omega)] at size
    omega

end

/-- An incomplete stream is an error that keeps the old snapshot, unless it is cut between two
entries and the child is not killed in time. -/
theorem childDump_iff (P : Primitives) (now : Time) (order : MapOrder) (s : Storage) (e : Engine)
    (fits : ∀ entry ∈ e.forEach now order, (snapshotRecord entry).Fits) (cut : Nat)
    (killed : Bool) :
    let out := s.childDump P now order e cut killed
    (cut < (serializeEngineToWriter now order e).length → out.2 ≠ none ∧ out.1 = s) ↔
      killed = true ∨ ¬ CutBetween (e.forEach now order) cut := by
  have recordsFit := snapshotRecords_fit fits
  cases killed with
  | true => simp [Storage.childDump]
  | false =>
    have count : (e.forEach now order).length = ((e.forEach now order).map snapshotRecord).length :=
      (List.length_map _).symm
    simp only [Storage.childDump, serializeEngineToWriter_eq, CutBetween, List.map_take, count,
      Bool.false_eq_true, ↓reduceIte, false_or]
    generalize (e.forEach now order).map snapshotRecord = rs at recordsFit ⊢
    constructor
    · rintro stays ⟨k, less, size⟩
      obtain ⟨front, incomplete⟩ := take_between less size
      have kept := snapshotChildWrite_records P now (s.fingerprint P)
        fun r mem => (recordsFit r (List.mem_of_mem_take (i := k) mem)).short
      rw [front, kept] at stays
      exact (stays incomplete).1 rfl
    · intro apart incomplete
      obtain ⟨kept, tail, split, start, torn, full⟩ := take_inside recordsFit incomplete
        fun k less size => apart ⟨k, less, size⟩
      rw [split, snapshotChildWrite_cut P now _ (fun r mem => recordsFit r (start.subset mem)) torn
        full]
      exact ⟨by simp, rfl⟩

def emptyEngine : Engine := Engine.new 0 0 0 .passThrough 0

def twoKeys : Engine := (emptyEngine.put [98] [2] (some 20)).put [97] [1] none

theorem twoKeys_entries :
    twoKeys.items.entries = [⟨[97], ⟨[1], none⟩⟩, ⟨[98], ⟨[2], some 20⟩⟩] := rfl

theorem childDump_iff_inside :
    let out := (Storage.fresh 0).childDump .tagged 5 .asStored twoKeys 20 false
    out.2 ≠ none ∧ out.1 = Storage.fresh 0 := by
  have fits : ∀ entry ∈ twoKeys.forEach 5 .asStored, (snapshotRecord entry).Fits := by
    intro entry mem
    have stored := (Engine.mem_forEach.mp mem).1
    rw [twoKeys_entries] at stored
    rcases List.mem_pair.mp stored with rfl | rfl
    · exact ⟨by decide, by decide, by decide, by decide⟩
    · exact ⟨by decide, by decide, by decide, by decide⟩
  refine (childDump_iff .tagged 5 .asStored (.fresh 0) twoKeys fits 20 false).mpr (Or.inr ?_)
    (by decide +kernel)
  rintro ⟨k, less, size⟩
  have two : k < 2 := less
  obtain rfl | rfl : k = 0 ∨ k = 1 := by omega
  · exact absurd size (by decide +kernel)
  · exact absurd size (by decide +kernel)

/-- The pipe ends behind the first entry: the child returns nil, and the other key is lost. -/
theorem cut_dump_accepted :
    let s := { Storage.fresh 0 with disk := { Disk.empty with snap := some [9] } }
    let out := s.childDump .tagged 5 .asStored twoKeys 18 false
    18 < (serializeEngineToWriter 5 .asStored twoKeys).length ∧ out.2 = none ∧
    out.1.disk.snap = some (snapshotFile .tagged 5 zeroFingerprint 1
      (snapshotRecord ⟨[97], ⟨[1], none⟩⟩).bytes) := by
  decide +kernel

theorem survives_of_ne {now : Nat} {expiration : Option Nat} (other : expiration ≠ some now) :
    Update.survives now expiration = !ExpiringMap.expired now expiration := by
  cases expiration with
  | none => rfl
  | some t =>
    have apart : t ≠ now := fun same => other (congrArg some same)
    rw [Update.survives, ExpiringMap.expired, ← decide_not, decide_eq_decide]
    omega

section
variable {P : Primitives} {t₀ t₁ : Time} {order : MapOrder} {e e₀ e₁ : Engine}

theorem lookup_restored (later : t₀ ≤ t₁)
    (items : e₁.items.entries = (surviving t₁ (e.forEach t₀ order)).reverse) {key : Bytes}
    (other : ∀ item, e.items.lookup key = some item → item.expiration ≠ some t₁) :
    e₁.items.lookup key =
      (e.items.lookup key).filter fun item => !ExpiringMap.expired t₁ item.expiration := by
  ext item
  rw [Option.filter_eq_some_iff, ← Option.mem_def, AList.mem_lookup_iff, items, List.mem_reverse,
    surviving, List.mem_filter, Engine.mem_forEach, ← AList.mem_lookup_iff, Option.mem_def]
  constructor
  · rintro ⟨⟨found, -⟩, survives⟩
    exact ⟨found, by rwa [← survives_of_ne (other item found)]⟩
  · rintro ⟨found, seen⟩
    refine ⟨⟨found, ?_⟩, by rwa [survives_of_ne (other item found)]⟩
    cases gone : ExpiringMap.expired t₀ item.expiration with
    | false => rfl
    | true => simp [ExpiringMap.expired_mono later gone] at seen

theorem read_congr (crypto : e₁.crypto = e.crypto) {key : Bytes}
    (found : e₁.items.lookup key =
      (e.items.lookup key).filter fun item => !ExpiringMap.expired t₁ item.expiration) :
    e₁.read P t₁ key = e.read P t₁ key := by
  rw [Engine.read_eq, Engine.read_eq, crypto]
  congr 1
  simp only [ExpiringMap.view, Engine.raw, found]
  cases e.items.lookup key with
  | none => rfl
  | some item => cases gone : ExpiringMap.expired t₁ item.expiration <;> simp [Option.filter_some, gone]

end

/-- A dump at `t₀` and a load at `t₁` into an empty engine with room for it: what is read, and
until when, is what the original would say. -/
theorem snapshot_round_trip {P : Primitives} {t₀ t₁ : Time} (later : t₀ ≤ t₁) (order : MapOrder)
    (fork : Bool) {e e₀ : Engine} {fp : Bytes} (size : fp.length = 16)
    (small : ∀ entry ∈ e.items.entries,
      entry.1.length < 2 ^ 32 ∧ entry.2.value.length < 2 ^ 32)
    (dated : ∀ entry ∈ e.items.entries, ∀ t, entry.2.expiration = some t → t < 2 ^ 63 ∧ t ≠ 0)
    (empty : e₀.items = ∅) (accounted : e₀.Accounted) (crypto : e₀.crypto = e.crypto)
    (room : e₀.maxBytes = 0 ∨ ((e.forEach t₀ order).map Engine.entrySize).sum ≤ e₀.maxBytes) :
    ∃ file e₁, snapshotForkDump P t₀ order fork e fp = .ok file ∧
      snapshotRead P t₁ file e₀ fp = (e₁, none) ∧
      ∀ key, (∀ item, e.items.lookup key = some item → item.expiration ≠ some t₁) →
        (e₁.get P t₁ key).2 = (e.get P t₁ key).2 ∧
        e₁.items.lookup key =
          (e.items.lookup key).filter fun item => !ExpiringMap.expired t₁ item.expiration := by
  have instants : ∀ entry ∈ e.forEach t₀ order,
      (LogCall.write entry.1 entry.2.value entry.2.expiration).dated = true := by
    intro entry mem
    cases ends : entry.2.expiration with
    | none => rfl
    | some t =>
      obtain ⟨low, high⟩ := dated entry (Engine.mem_forEach.mp mem).1 t ends
      simp only [LogCall.dated, Bool.and_eq_true, decide_eq_true_eq]
      exact ⟨Nat.pos_of_ne_zero high, low⟩
  have fits : ∀ entry ∈ e.forEach t₀ order, (snapshotRecord entry).Fits := by
    intro entry mem
    obtain ⟨key, value⟩ := small entry (Engine.mem_forEach.mp mem).1
    have range := (LogCall.write entry.1 entry.2.value entry.2.expiration).record_ttl_range
    exact ⟨Nat.le_pred_of_lt key, Nat.le_pred_of_lt value, range.1, range.2⟩
  have none : e₀.items.entries = [] := by rw [empty]; rfl
  have unused : e₀.allocatedBytes = 0 := by
    rw [accounted.allocated, Engine.ledger_total, none]
    rfl
  have ok := restore_room P t₁ instants accounted (by rwa [unused, Nat.zero_add])
  obtain ⟨items, -, same, -⟩ := restore_entries instants
    (by rw [none, List.append_nil]; exact Engine.forEach_nodupKeys) accounted (Prod.ext rfl ok)
  rw [none, List.append_nil] at items
  refine ⟨_, (restoreEntries P t₁ e₀ (e.forEach t₀ order)).1,
    snapshotForkDump_eq P t₀ order fork e fp fits, ?_, fun key other => ?_⟩
  · rw [snapshotRead_file P t₁ t₀ e₀ size (snapshotRecords_fit fits)]
    exact Prod.ext rfl ok
  · have found := lookup_restored later items other
    rw [Engine.get_result, Engine.get_result]
    exact ⟨read_congr (same.trans crypto) found, found⟩

theorem snapshot_round_trip_two_keys :
    ∃ file e₁, snapshotForkDump .tagged 5 .asStored true twoKeys zeroFingerprint = .ok file ∧
      snapshotRead .tagged 10 file emptyEngine zeroFingerprint = (e₁, none) ∧
      (e₁.get .tagged 10 [98]).2 = some [2] ∧
      e₁.items.lookup [98] = some ⟨[2], some 20⟩ := by
  obtain ⟨file, e₁, dumped, loaded, same⟩ := snapshot_round_trip (P := .tagged)
    (by decide : 5 ≤ 10) .asStored true (e := twoKeys) (by decide : zeroFingerprint.length = 16)
    (by decide) (by decide) (rfl : emptyEngine.items = ∅) (Engine.new_accounted _ _ _ _ _) rfl
    (Or.inl rfl)
  obtain ⟨value, item⟩ := same [98] (by decide)
  exact ⟨file, e₁, dumped, loaded, value, item⟩

/-- The epoch is written as no expiry: an entry that ends there comes back for good. -/
theorem epoch_expiry_lost :
    let e := emptyEngine.put [97] [1] (some 0)
    let loaded := snapshotRead .tagged 1 (snapshotWrite .tagged 0 .asStored e zeroFingerprint)
      emptyEngine zeroFingerprint
    loaded.2 = none ∧ (loaded.1.get .tagged 1 [97]).2 = some [1] ∧
      (e.get .tagged 1 [97]).2 = none := by
  decide +kernel

end Tellstone
