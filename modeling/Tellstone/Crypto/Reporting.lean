import Tellstone.Crypto.Honesty

/-! When a rotation that succeeds has written what it says. -/
namespace Tellstone
open ByteStream FileOps

section
variable (P : Primitives) (env : Bytes → Fates) (old new : CipherKey) (retainOld : Bool)

/-- The contents that the old key opens to some data key, and that data key under the new one. -/
def NewWrapping (raw raw' : Bytes) : Prop :=
  ∃ dek draw, (CryptoEngine.chacha old).decryptInPlace P (raw.drop (1 + envFingerprintLen)) =
      .ok dek ∧
    raw' = Envelope.layout (fingerprintBytes P new)
      ((CryptoEngine.chacha new).encryptInPlace P draw dek)

/-- An envelope file that was not under the new key and holds its new wrapping now. -/
def Replaced (d d' : Dir) (name : Bytes) : Prop :=
  name ∈ findEnvelopeFiles d ∧ fileStatus P old new d name ≠ .new ∧
    ∃ raw raw', d.lookup name = some raw ∧ d'.lookup name = some raw' ∧
      NewWrapping P old new raw raw'

/-- Every file that was not under the new key was replaced, and they are what is counted. -/
def Reported (oldKEK newKEK : Bytes) (d : Dir)
    (outcome : Outcome RewrapError RewrapResult × Dir) : Prop :=
  ∀ result, outcome.1 = .ok result → ∃ old new : CipherKey, old.1 = oldKEK ∧ new.1 = newKEK ∧
    (∀ name ∈ findEnvelopeFiles d, fileStatus P old new d name ≠ .new →
      Replaced P old new d outcome.2 name) ∧
    ∃ replaced : List Bytes, replaced.Nodup ∧
      (∀ name, name ∈ replaced ↔ Replaced P old new d outcome.2 name) ∧
      result.rewrapped = replaced.length

/-- Why a run claims too much: a foreign file with none left to do, or a failure that the cleanup
forgets. Only a file that is its own new wrapping need not be written. -/
inductive Overstated (d : Dir) : Prop where
  | foreign (read : ∀ name ∈ findEnvelopeFiles d, Readable env d name)
      (none : ∀ name ∈ findEnvelopeFiles d, ¬ Carries P old d name)
      (done : ∃ name ∈ findEnvelopeFiles d, Carries P new d name)
      (other : ∃ name ∈ findEnvelopeFiles d, ¬ Carries P old d name ∧ ¬ Carries P new d name)
  | swallowed (read : ∀ name ∈ findEnvelopeFiles d, Readable env d name)
      (known : ∀ name ∈ findEnvelopeFiles d, Carries P old d name ∨ Carries P new d name)
      (opens : ∀ name ∈ findEnvelopeFiles d, Carries P old d name →
        ∃ raw dek, d.lookup name = some raw ∧ (Envelope.ofKey old).load P raw = .ok dek)
      (quiet : ∀ name ∈ findEnvelopeFiles d, Carries P old d name →
        (env name).quiet retainOld = true)
      (lost : ∃ name ∈ findEnvelopeFiles d, Carries P old d name ∧ (env name).swallowed = true ∧
        ¬ Replaced P old new d d name)

end

section
variable {P : Primitives} {env : Bytes → Fates} {old new : CipherKey} {retainOld : Bool} {d : Dir}
  {name : Bytes}

def pending (P : Primitives) (old new : CipherKey) (d : Dir) : List Bytes :=
  (findEnvelopeFiles d).filter fun name => decide (fileStatus P old new d name ≠ .new)

theorem mem_pending :
    name ∈ pending P old new d ↔ name ∈ findEnvelopeFiles d ∧ fileStatus P old new d name ≠ .new := by
  rw [pending, List.mem_filter, decide_eq_true_eq]

theorem rewrapEntries_count {draw : Nat} {result : RewrapResult}
    (ok : (rewrapEntries P env draw old.1 new.1 retainOld (entriesOf P old new d) d).1 =
      .ok result) :
    (∀ name ∈ findEnvelopeFiles d, fileStatus P old new d name ≠ .old) ∧ result.rewrapped = 0 ∨
      result.rewrapped = (pending P old new d).length := by
  simp only [rewrapEntries, Envelope.new_ofKey] at ok
  split at ok
  · rename_i counts
    left
    cases ok
    refine ⟨fun name mem status => ?_, rfl⟩
    exact Nat.ne_of_gt ((countP_status P old new d .old).mpr ⟨name, mem, status⟩) counts.1
  split at ok
  · cases ok
  split at ok
  · cases ok
  right
  obtain ⟨toWrite, ready, ok⟩ := Prog.bind_ok_iff.mp ok
  obtain ⟨_, -, ok⟩ := Prog.bind_ok_iff.mp ok
  cases ok
  have prepared := prepare_spec (liftExcept_ok_iff.mp ready)
  have names := congrArg List.length ((names_of_prepared prepared).trans (names_of_stale P old new d))
  rwa [List.length_map] at names

theorem rewrapEnvelopes_count {draw : Nat} {result : RewrapResult}
    (ok : (rewrapEnvelopes P env draw old.1 new.1 retainOld d).1 = .ok result) :
    (∀ name ∈ findEnvelopeFiles d, fileStatus P old new d name ≠ .old) ∧ result.rewrapped = 0 ∨
      result.rewrapped = (pending P old new d).length := by
  unfold rewrapEnvelopes at ok
  split at ok
  · cases ok
  split at ok
  · cases ok
  split at ok
  · cases ok
  simp only at ok
  split at ok
  · cases ok
  obtain ⟨entries, read, ok⟩ := Prog.bind_ok_iff.mp ok
  obtain ⟨-, rfl⟩ := readEntries_ok_iff.mp read
  rw [readEntries_state] at ok
  exact rewrapEntries_count ok

theorem NewWrapping.stamp (law : P.Lawful) {raw raw' : Bytes}
    (wrapping : NewWrapping P old new raw raw') : Envelope.stamp raw' = fingerprintBytes P new := by
  obtain ⟨dek, draw, -, rfl⟩ := wrapping
  exact (Envelope.layout_fields (Envelope.fingerprintBytes_length law new) _).2.1

theorem replaced_congr {d₁ d₂ : Dir} (same : d₁.lookup name = d₂.lookup name) :
    Replaced P old new d d₁ name ↔ Replaced P old new d d₂ name := by
  rw [Replaced, Replaced, same]

theorem replaced_of_landed {toWrite : List (Bytes × Bytes)} {write : Bytes × Bytes} {d' : Dir}
    (prepared : List.Forall₂ (Prepared P old new) (stale (entriesOf P old new d)) toWrite)
    (listed : write ∈ toWrite) (file : d'.lookup write.1 = some write.2) :
    Replaced P old new d d' write.1 := by
  obtain ⟨mem, status⟩ := (mem_toWrite prepared).mp (List.mem_map_of_mem listed)
  obtain ⟨raw, found⟩ := exists_of_found mem
  obtain ⟨-, dek, draw, opens, contents⟩ := prepared_of_mem prepared listed
  rw [entryOf, found] at opens
  exact ⟨mem, status, raw, write.2, found, file, dek, draw, opens, contents⟩

section
variable {result : RewrapResult} {d' : Dir}
  (ran : Rewrapped P env old new retainOld d (.ok result, d'))
  (fair : ¬ Overstated P env old new retainOld d)

include ran fair

theorem Rewrapped.recognizes (mem : name ∈ findEnvelopeFiles d) :
    fileStatus P old new d name ≠ .unknown := by
  intro status
  cases ran with
  | failed refused => exact refused result rfl
  | skipped read none done =>
    obtain ⟨first, found, kind⟩ := done
    exact fair (.foreign read (fun name mem => mt (fileStatus_iff mem).1.mpr (none name mem))
      ⟨first, found, ((fileStatus_iff found).2.mp kind).2⟩
      ⟨name, mem, not_or.mp (mt (known_iff mem).mpr (not_not.mpr status))⟩)
  | wrote read known prepared all ends => exact known name mem status

theorem Rewrapped.replaces (mem : name ∈ findEnvelopeFiles d)
    (status : fileStatus P old new d name ≠ .new) : Replaced P old new d d' name := by
  have recognized := ran.recognizes fair mem
  cases ran with
  | failed refused => exact absurd rfl (refused result)
  | skipped read none done =>
    cases kind : fileStatus P old new d name with
    | old => exact absurd kind (none name mem)
    | new => exact absurd kind status
    | unknown => exact absurd kind recognized
  | @wrote _ toWrite written read known prepared all ends =>
    have done := ends.mp ⟨result, rfl⟩
    obtain ⟨write, listed, rfl⟩ := List.mem_map.mp ((mem_toWrite prepared).mpr ⟨mem, status⟩)
    have file := all.landed done write listed
    cases landed : (env write.1).landed with
    | true =>
      rw [landed, if_pos rfl] at file
      exact replaced_of_landed prepared listed file
    | false =>
      rw [landed, if_neg Bool.false_ne_true] at file
      by_contra kept
      have recognized := fun name mem => (known_iff mem).mp (known name mem)
      have under := carries_of_stale mem (recognized write.1 mem) status
      have swallowed := Fates.swallowed_of_quiet (all.ok.mp done write listed) landed
      have unchanged : ¬ Replaced P old new d d write.1 := mt (replaced_congr file).mpr kept
      obtain ⟨opens, quiet⟩ := quiet_of_written read prepared all done
      exact fair (.swallowed read recognized opens quiet
        ⟨write.1, mem, under, swallowed, unchanged⟩)

theorem Rewrapped.counts {draw : Nat}
    (ok : (rewrapEnvelopes P env draw old.1 new.1 retainOld d).1 = .ok result) :
    result.rewrapped = (pending P old new d).length := by
  rcases rewrapEnvelopes_count ok with ⟨none, zero⟩ | count
  · -- without a file under the old key nothing is written, and nothing had to be
    have nothing : pending P old new d = [] := by
      apply List.eq_nil_iff_forall_not_mem.mpr
      intro name mem
      obtain ⟨found, status⟩ := mem_pending.mp mem
      cases kind : fileStatus P old new d name with
      | old => exact none name found kind
      | new => exact status kind
      | unknown => exact ran.recognizes fair found kind
    rw [zero, nothing]
    rfl
  · exact count

end

theorem Rewrapped.untouched {result : RewrapResult} {d' : Dir}
    (ran : Rewrapped P env old new retainOld d (.ok result, d')) (mem : name ∈ findEnvelopeFiles d)
    (status : fileStatus P old new d name = .unknown) : d' = d := by
  cases ran with
  | failed refused => exact absurd rfl (refused result)
  | skipped read none done => rfl
  | wrote read known prepared all ends => exact absurd status (known name mem)

theorem Overstated.not_reported (law : P.Lawful) {draw : Nat} (other : old ≠ new)
    (overstates : Overstated P env old new retainOld d) :
    ¬ Reported P old.1 new.1 d (rewrapEnvelopes P env draw old.1 new.1 retainOld d) := by
  intro reported
  have ran := rewrapEnvelopes_rewrapped P env draw old new retainOld d
  rw [← Prod.eta (rewrapEnvelopes P env draw old.1 new.1 retainOld d)] at ran
  have all {result : RewrapResult} {name : Bytes}
      (ok : (rewrapEnvelopes P env draw old.1 new.1 retainOld d).1 = .ok result)
      (mem : name ∈ findEnvelopeFiles d) (status : fileStatus P old new d name ≠ .new) :
      Replaced P old new d (rewrapEnvelopes P env draw old.1 new.1 retainOld d).2 name := by
    obtain ⟨old', new', oldSame, newSame, all, -⟩ := reported result ok
    cases Subtype.ext oldSame
    cases Subtype.ext newSame
    exact all name mem status
  cases overstates with
  | foreign read none done foreign =>
    obtain ⟨name, mem, strange⟩ := foreign
    have status := not_not.mp (mt (known_iff mem).mp (not_or.mpr strange))
    obtain ⟨result, ok⟩ := foreign_succeeds other draw read none done
    obtain ⟨-, -, raw, raw', -, found', wrapping⟩ := all ok mem (by simp [status])
    rw [ok] at ran
    rw [ran.untouched mem status] at found'
    exact strange.2 ⟨raw', found', wrapping.stamp law⟩
  | swallowed read known opens quiet lost =>
    obtain ⟨name, mem, under, swallowed, kept⟩ := lost
    have status : fileStatus P old new d name = .old := (fileStatus_iff mem).1.mpr under
    obtain ⟨result, ok⟩ := swallowed_succeeds other draw read known opens quiet mem under
    have replaced := all ok mem (by simp [status])
    rw [ok] at ran
    exact kept ((replaced_congr (ran.unchanged mem under swallowed)).mp replaced)

end

/-- A rotation that succeeds has replaced every file not under the new key, and counts just these,
unless the run claims too much. -/
theorem rewrap_reported_iff {P : Primitives} (law : P.Lawful) (env : Bytes → Fates) (draw : Nat)
    (oldKEK newKEK : Bytes) (retainOld : Bool) (d : Dir) :
    Reported P oldKEK newKEK d (rewrapEnvelopes P env draw oldKEK newKEK retainOld d) ↔
      ∀ old new : CipherKey, old.1 = oldKEK → new.1 = newKEK → old ≠ new →
        ¬ Overstated P env old new retainOld d := by
  constructor
  · rintro reported old new rfl rfl other overstates
    exact overstates.not_reported law other reported
  · intro fair result ok
    rcases accepted_or_refused P env draw oldKEK newKEK retainOld d with
      ⟨old, new, rfl, rfl, other⟩ | ⟨err, refused⟩
    · have ran := rewrapEnvelopes_rewrapped P env draw old new retainOld d
      rw [← Prod.eta (rewrapEnvelopes P env draw old.1 new.1 retainOld d), ok] at ran
      have fair := fair old new rfl rfl other
      refine ⟨old, new, rfl, rfl, fun name mem => ran.replaces fair mem, pending P old new d,
        (findEnvelopeFiles_nodup d).filter _, ?_, ran.counts fair ok⟩
      intro name
      rw [mem_pending]
      exact ⟨fun listed => ran.replaces fair listed.1 listed.2, fun replaced =>
        ⟨replaced.1, replaced.2.1⟩⟩
    · rw [refused] at ok
      cases ok

theorem rewrap_reported_iff_healthy :
    Reported .tagged (sampleKey 1).1 (sampleKey 2).1
      (sampleDir (sampleEnvelope 1 [7]) (sampleEnvelope 1 [8]))
      (rewrapEnvelopes .tagged (fun _ => .healthy) 0 (sampleKey 1).1 (sampleKey 2).1 false
        (sampleDir (sampleEnvelope 1 [7]) (sampleEnvelope 1 [8]))) := by
  refine (rewrap_reported_iff Primitives.tagged_lawful (fun _ => .healthy) 0 (sampleKey 1).1
    (sampleKey 2).1 false (sampleDir (sampleEnvelope 1 [7]) (sampleEnvelope 1 [8]))).mpr ?_
  intro old new oldSame newSame _ overstates
  obtain rfl : old = sampleKey 1 := Subtype.ext oldSame
  cases overstates with
  | foreign read none done other =>
    exact none auditEnvelope (by decide) ⟨sampleEnvelope 1 [7], rfl, rfl⟩
  | swallowed read known opens quiet lost =>
    obtain ⟨name, -, -, swallowed, -⟩ := lost
    cases swallowed

/-- A write fails after three bytes and is cleaned up: the run succeeds and counts the file. -/
theorem failed_write_counted :
    let d := sampleDir (sampleEnvelope 1 [7]) (sampleEnvelope 1 [8])
    let ran := rewrapEnvelopes .tagged
      (fun name => if name = auditEnvelope then .healthy else { Fates.healthy with write := .fails 3 })
      0 (sampleKey 1).1 (sampleKey 2).1 false d
    ran.1 = .ok ⟨2, 0, 2⟩ ∧ ran.2.lookup (ascii "shard-0.env") = d.lookup (ascii "shard-0.env") ∧
      d.lookup (ascii "shard-0.env") = some (sampleEnvelope 1 [8]) ∧
      Envelope.stamp (sampleEnvelope 1 [8]) ≠ fingerprintBytes .tagged (sampleKey 2) := by
  decide +kernel

end Tellstone
