import Tellstone.Crypto.Rotation

/-! When the result of a rotation can be relied on. -/
namespace Tellstone
open ByteStream FileOps

def Carries (P : Primitives) (kek : Bytes) (d : Dir) (name : Bytes) : Prop :=
  ∃ raw, d.lookup name = some raw ∧ Envelope.stamp raw = fingerprintBytes P kek

/-- Why a run succeeds over a file that is not under the new key: a foreign file with none left to
do, or a failure that the cleanup forgets. -/
inductive Misleading (P : Primitives) (env : Bytes → Fates) (old new : CipherKey)
    (retainOld : Bool) (d : Dir) : Prop where
  | foreign (read : ∀ name ∈ findEnvelopeFiles d, (env name).read = .done)
      (none : ∀ name ∈ findEnvelopeFiles d, ¬ Carries P old d name)
      (done : ∃ name ∈ findEnvelopeFiles d, Carries P new d name)
      (other : ∃ name ∈ findEnvelopeFiles d, ¬ Carries P old d name ∧ ¬ Carries P new d name)
  | swallowed (read : ∀ name ∈ findEnvelopeFiles d, (env name).read = .done)
      (distinct : fingerprintBytes P old ≠ fingerprintBytes P new)
      (known : ∀ name ∈ findEnvelopeFiles d, Carries P old d name ∨ Carries P new d name)
      (opens : ∀ name ∈ findEnvelopeFiles d, Carries P old d name →
        ∃ raw dek, d.lookup name = some raw ∧ (Envelope.ofKey old).load P raw = .ok dek)
      (quiet : ∀ name ∈ findEnvelopeFiles d, Carries P old d name →
        (env name).quiet retainOld = true)
      (lost : ∃ name ∈ findEnvelopeFiles d, Carries P old d name ∧ (env name).swallowed = true)

/-- Success puts every file under the new key, and a file under neither key is a failure that
changes nothing. -/
def Honest (P : Primitives) (oldKEK newKEK : Bytes) (d : Dir)
    (outcome : Outcome RewrapError RewrapResult × Dir) : Prop :=
  (∀ result, outcome.1 = .ok result →
    ∀ name ∈ findEnvelopeFiles d, Carries P newKEK outcome.2 name) ∧
  ((∃ name ∈ findEnvelopeFiles d, ¬ Carries P oldKEK d name ∧ ¬ Carries P newKEK d name) →
    (∀ result, outcome.1 ≠ .ok result) ∧
      ∀ name, isEnvelope name = true → outcome.2.lookup name = d.lookup name)

theorem Honest.of_failed {P : Primitives} {oldKEK newKEK : Bytes} {d : Dir}
    {outcome : Outcome RewrapError RewrapResult} (refused : ∀ result, outcome ≠ .ok result) :
    Honest P oldKEK newKEK d (outcome, d) :=
  ⟨fun result ok => absurd ok (refused result), fun _ => ⟨refused, fun _ _ => rfl⟩⟩

namespace Fates

theorem landed_of_complete {f : Fates} (complete : f.complete = true) : f.landed = true := by
  simp only [Fates.complete, Bool.and_eq_true, decide_eq_true_eq] at complete
  obtain ⟨⟨⟨⟨⟨⟨⟨create, write⟩, sync⟩, close⟩, rename⟩, -⟩, -⟩, -⟩ := complete
  simp [landed, create, write, sync, close, rename]

theorem swallowed_of_quiet {f : Fates} {retainOld : Bool} (quiet : f.quiet retainOld = true)
    (kept : f.landed = false) : f.swallowed = true := by
  rw [Fates.quiet, Bool.and_eq_true, Bool.or_eq_true f.complete] at quiet
  rcases quiet.2 with complete | swallowed
  · rw [landed_of_complete complete] at kept
    cases kept
  · exact swallowed

theorem not_landed_of_swallowed {f : Fates} (swallowed : f.swallowed = true) :
    f.landed = false := by
  cases kept : f.landed with
  | false => rfl
  | true =>
    simp only [landed, Bool.and_eq_true, decide_eq_true_eq] at kept
    obtain ⟨⟨⟨⟨-, write⟩, sync⟩, close⟩, rename⟩ := kept
    cases renamed : f.rename with
    | done => simp [Fates.swallowed, failed, write, sync, close, renamed] at swallowed
    | fails part => simp [renamed] at rename
    | dies part => simp [Fates.swallowed, failed, write, sync, close, renamed] at swallowed

end Fates

section
variable {P : Primitives} {env : Bytes → Fates} {old new : CipherKey} {retainOld : Bool} {d : Dir}
  {name : Bytes}

section
variable (mem : name ∈ findEnvelopeFiles d)

include mem

theorem exists_of_found : ∃ raw, d.lookup name = some raw :=
  Option.isSome_iff_exists.mp (mem_findEnvelopeFiles.mp mem).2

theorem fileStatus_iff : (fileStatus P old new d name = .old ↔ Carries P old d name) ∧
    (fileStatus P old new d name = .new ↔ ¬ Carries P old d name ∧ Carries P new d name) := by
  obtain ⟨raw, found⟩ := exists_of_found mem
  simp only [fileStatus_of_lookup found, Carries, found, Option.some.injEq, exists_eq_left']
  grind [stampStatus]

theorem known_iff : fileStatus P old new d name ≠ .unknown ↔
    Carries P old d name ∨ Carries P new d name := by
  obtain ⟨old_iff, new_iff⟩ := @fileStatus_iff P old new d name mem
  cases status : fileStatus P old new d name <;> simp_all

theorem carries_of_stale (known : Carries P old d name ∨ Carries P new d name)
    (status : fileStatus P old new d name ≠ .new) : Carries P old d name := by
  by_contra notOld
  exact status ((fileStatus_iff mem).2.mpr ⟨notOld, known.resolve_left notOld⟩)

end

theorem Prepared.stamp (law : P.Lawful) {entry : EnvelopeEntry} {write : Bytes × Bytes}
    (prepared : Prepared P old new entry write) :
    Envelope.stamp write.2 = fingerprintBytes P new := by
  obtain ⟨-, dek, draw, -, contents⟩ := prepared
  rw [contents]
  exact (Envelope.layout_fields (Envelope.fingerprintBytes_length law new) _).2.1

theorem exists_write_of_carries {toWrite : List (Bytes × Bytes)}
    (prepared : List.Forall₂ (Prepared P old new) (stale (entriesOf P old new d)) toWrite)
    (mem : name ∈ findEnvelopeFiles d) (read : Readable env d name)
    (under : Carries P old d name) :
    (∃ write ∈ toWrite, write.1 = name) ∧
      ∃ raw dek, d.lookup name = some raw ∧ (Envelope.ofKey old).load P raw = .ok dek := by
  have status : fileStatus P old new d name ≠ .new := by
    rw [(fileStatus_iff mem).1.mpr under]
    simp
  obtain ⟨write, listed, rfl⟩ := List.mem_map.mp ((mem_toWrite prepared).mpr ⟨mem, status⟩)
  refine ⟨⟨write, listed, rfl⟩, ?_⟩
  obtain ⟨-, dek, -, opens, -⟩ := prepared_of_mem prepared listed
  obtain ⟨-, raw, found, wellFormed⟩ := read
  obtain ⟨same, found', stamped⟩ := under
  cases found.symm.trans found'
  rw [entryOf, found] at opens
  exact ⟨raw, dek, found, Envelope.load_ok_iff.mpr ⟨wellFormed, stamped, opens⟩⟩

section
variable {toWrite : List (Bytes × Bytes)} {written : Outcome RewrapError Unit × Dir}
  (read : ∀ name ∈ findEnvelopeFiles d, Readable env d name)
  (known : ∀ name ∈ findEnvelopeFiles d, Carries P old d name ∨ Carries P new d name)
  (prepared : List.Forall₂ (Prepared P old new) (stale (entriesOf P old new d)) toWrite)
  (all : WroteAll env retainOld toWrite d written) (done : written.1 = .ok ())

include read known prepared all done

omit known in
theorem quiet_of_written : (∀ name ∈ findEnvelopeFiles d, Carries P old d name →
      ∃ raw dek, d.lookup name = some raw ∧ (Envelope.ofKey old).load P raw = .ok dek) ∧
    ∀ name ∈ findEnvelopeFiles d, Carries P old d name → (env name).quiet retainOld = true := by
  constructor
  · intro name mem under
    exact (exists_write_of_carries prepared mem (read name mem) under).2
  · intro name mem under
    obtain ⟨write, listed, rfl⟩ := (exists_write_of_carries prepared mem (read name mem) under).1
    exact all.ok.mp done write listed

theorem carries_of_written (law : P.Lawful) (fair : ¬ Misleading P env old new retainOld d)
    (mem : name ∈ findEnvelopeFiles d) : Carries P new written.2 name := by
  by_cases listed : name ∈ toWrite.map Prod.fst
  · obtain ⟨write, member, rfl⟩ := List.mem_map.mp listed
    have file := all.landed done write member
    cases landed : (env write.1).landed with
    | true =>
      rw [landed, if_pos rfl] at file
      exact ⟨write.2, file, (prepared_of_mem prepared member).stamp law⟩
    | false =>
      rw [landed, if_neg Bool.false_ne_true] at file
      have under := carries_of_stale mem (known write.1 mem) ((mem_toWrite prepared).mp listed).2
      have swallowed := Fates.swallowed_of_quiet (all.ok.mp done write member) landed
      obtain ⟨opens, quiet⟩ := quiet_of_written read prepared all done
      -- the failure went unseen: the stamp is right only if both keys have the same
      have same : fingerprintBytes P old = fingerprintBytes P new := by
        by_contra distinct
        exact fair (.swallowed (fun name mem => (read name mem).1) distinct known opens quiet
          ⟨write.1, mem, under, swallowed⟩)
      rw [Carries, file, ← same]
      exact under
  · rw [Carries, all.others name (mem_findEnvelopeFiles.mp mem).1 listed]
    have status : fileStatus P old new d name = .new := by
      by_contra other
      exact listed ((mem_toWrite prepared).mpr ⟨mem, other⟩)
    exact ((fileStatus_iff mem).2.mp status).2

end

section
variable (other : old ≠ new) (draw : Nat) (read : ∀ name ∈ findEnvelopeFiles d, Readable env d name)

include other read

theorem foreign_succeeds (none : ∀ name ∈ findEnvelopeFiles d, ¬ Carries P old d name)
    (done : ∃ name ∈ findEnvelopeFiles d, Carries P new d name) :
    ∃ result, (rewrapEnvelopes P env draw old.1 new.1 retainOld d).1 = .ok result := by
  obtain ⟨first, found, under⟩ := done
  refine rewrapEnvelopes_skips other draw read ?_
    ⟨first, found, (fileStatus_iff found).2.mpr ⟨none first found, under⟩⟩
  exact fun name mem => mt (fileStatus_iff mem).1.mp (none name mem)

theorem swallowed_succeeds
    (known : ∀ name ∈ findEnvelopeFiles d, Carries P old d name ∨ Carries P new d name)
    (opens : ∀ name ∈ findEnvelopeFiles d, Carries P old d name →
      ∃ raw dek, d.lookup name = some raw ∧ (Envelope.ofKey old).load P raw = .ok dek)
    (quiet : ∀ name ∈ findEnvelopeFiles d, Carries P old d name → (env name).quiet retainOld = true)
    (mem : name ∈ findEnvelopeFiles d) (under : Carries P old d name) :
    ∃ result, (rewrapEnvelopes P env draw old.1 new.1 retainOld d).1 = .ok result := by
  refine rewrapEnvelopes_writes other draw read ⟨name, mem, (fileStatus_iff mem).1.mpr under⟩ ?_ ?_ ?_
  · exact fun name mem => (known_iff mem).mpr (known name mem)
  · exact fun name mem status => opens name mem ((fileStatus_iff mem).1.mp status)
  · exact fun name mem status => quiet name mem ((fileStatus_iff mem).1.mp status)

end

theorem Rewrapped.honest (law : P.Lawful) {outcome : Outcome RewrapError RewrapResult × Dir}
    (ran : Rewrapped P env old new retainOld d outcome)
    (fair : ¬ Misleading P env old new retainOld d) : Honest P old.1 new.1 d outcome := by
  cases ran with
  | failed refused => exact .of_failed refused
  | @skipped result read none done =>
    have known (name : Bytes) (mem : name ∈ findEnvelopeFiles d) : Carries P new d name := by
      have notOld := fun name mem => mt (fileStatus_iff mem).1.mpr (none name mem)
      by_contra other
      obtain ⟨first, found, status⟩ := done
      exact fair (.foreign (fun name mem => (read name mem).1) notOld
        ⟨first, found, ((fileStatus_iff found).2.mp status).2⟩
        ⟨name, mem, notOld name mem, other⟩)
    refine ⟨fun _ _ => known, ?_⟩
    rintro ⟨name, mem, -, other⟩
    exact absurd (known name mem) other
  | @wrote outcome toWrite written read known prepared all ends =>
    have recognized := fun name mem => (known_iff mem).mp (known name mem)
    refine ⟨fun result ok name mem => ?_, ?_⟩
    · exact carries_of_written read recognized prepared all (ends.mp ⟨result, ok⟩) law fair mem
    · rintro ⟨name, mem, notOld, notNew⟩
      exact absurd (recognized name mem) (not_or.mpr ⟨notOld, notNew⟩)

theorem Rewrapped.unchanged {result : RewrapResult} {d' : Dir}
    (ran : Rewrapped P env old new retainOld d (.ok result, d')) (mem : name ∈ findEnvelopeFiles d)
    (under : Carries P old d name) (swallowed : (env name).swallowed = true) :
    d'.lookup name = d.lookup name := by
  cases ran with
  | failed refused => exact absurd rfl (refused result)
  | skipped read none done => rfl
  | @wrote _ toWrite written read known prepared all ends =>
    obtain ⟨⟨write, member, rfl⟩, -⟩ := exists_write_of_carries prepared mem (read name mem) under
    have file := all.landed (ends.mp ⟨result, rfl⟩) write member
    rwa [Fates.not_landed_of_swallowed swallowed, if_neg Bool.false_ne_true] at file

theorem Misleading.not_honest {draw : Nat} (other : old ≠ new)
    (wellFormed : ∀ name raw, isEnvelope name = true → d.lookup name = some raw →
      Envelope.WellFormed raw)
    (misleads : Misleading P env old new retainOld d) :
    ¬ Honest P old.1 new.1 d (rewrapEnvelopes P env draw old.1 new.1 retainOld d) := by
  intro honest
  have readable (read : ∀ name ∈ findEnvelopeFiles d, (env name).read = .done) :
      ∀ name ∈ findEnvelopeFiles d, Readable env d name := by
    intro name mem
    obtain ⟨raw, found⟩ := exists_of_found mem
    have envelope := (mem_findEnvelopeFiles.mp mem).1
    exact ⟨read name mem, raw, found, wellFormed name raw envelope found⟩
  cases misleads with
  | foreign read none done foreign =>
    obtain ⟨result, ok⟩ := foreign_succeeds other draw (readable read) none done
    exact (honest.2 foreign).1 result ok
  | swallowed read distinct known opens quiet lost =>
    obtain ⟨name, mem, under, swallowed⟩ := lost
    obtain ⟨result, ok⟩ :=
      swallowed_succeeds other draw (readable read) known opens quiet mem under
    have ran := rewrapEnvelopes_rewrapped P env draw old new retainOld d
    rw [← Prod.eta (rewrapEnvelopes P env draw old.1 new.1 retainOld d), ok] at ran
    obtain ⟨raw, found, stamped⟩ := under
    obtain ⟨raw', found', stamped'⟩ := honest.1 result ok name mem
    rw [ran.unchanged mem ⟨raw, found, stamped⟩ swallowed] at found'
    cases found.symm.trans found'
    exact distinct (stamped.symm.trans stamped')

end

theorem accepted_or_refused (P : Primitives) (env : Bytes → Fates) (draw : Nat)
    (oldKEK newKEK : Bytes) (retainOld : Bool) (d : Dir) :
    (∃ old new : CipherKey, old.1 = oldKEK ∧ new.1 = newKEK ∧ old ≠ new) ∨
      ∃ err, rewrapEnvelopes P env draw oldKEK newKEK retainOld d = (.error err, d) := by
  unfold rewrapEnvelopes
  split
  · exact Or.inr ⟨_, rfl⟩
  split
  · exact Or.inr ⟨_, rfl⟩
  split
  · exact Or.inr ⟨_, rfl⟩
  rename_i oldFits newFits differ
  exact Or.inl ⟨⟨oldKEK, not_not.mp oldFits⟩, ⟨newKEK, not_not.mp newFits⟩, rfl, rfl,
    fun same => differ (congrArg Subtype.val same)⟩

/-- A rotation's result can be relied on unless the keys are accepted and the run is
misleading. -/
theorem rewrap_honest_iff {P : Primitives} (law : P.Lawful) (env : Bytes → Fates) (draw : Nat)
    (oldKEK newKEK : Bytes) (retainOld : Bool) (d : Dir)
    (wellFormed : ∀ name raw, isEnvelope name = true → d.lookup name = some raw →
      Envelope.WellFormed raw) :
    Honest P oldKEK newKEK d (rewrapEnvelopes P env draw oldKEK newKEK retainOld d) ↔
      ∀ old new : CipherKey, old.1 = oldKEK → new.1 = newKEK → old ≠ new →
        ¬ Misleading P env old new retainOld d := by
  constructor
  · rintro honest old new rfl rfl other misleads
    exact misleads.not_honest other wellFormed honest
  · intro fair
    rcases accepted_or_refused P env draw oldKEK newKEK retainOld d with
      ⟨old, new, rfl, rfl, other⟩ | ⟨err, ran⟩
    · have ran := rewrapEnvelopes_rewrapped P env draw old new retainOld d
      exact ran.honest law (fair old new rfl rfl other)
    · rw [ran]
      exact .of_failed (by simp)

/-- A file under the old key and one under a third: the run fails and changes nothing. -/
theorem rewrap_honest_iff_mixed :
    Honest .tagged (sampleKey 1).1 (sampleKey 2).1
      (sampleDir (sampleEnvelope 1 [7]) (sampleEnvelope 3 [8]))
      (rewrapEnvelopes .tagged (fun _ => .healthy) 0 (sampleKey 1).1 (sampleKey 2).1 false
        (sampleDir (sampleEnvelope 1 [7]) (sampleEnvelope 3 [8]))) := by
  refine (rewrap_honest_iff Primitives.tagged_lawful (fun _ => .healthy) 0 (sampleKey 1).1
    (sampleKey 2).1 false (sampleDir (sampleEnvelope 1 [7]) (sampleEnvelope 3 [8])) ?_).mpr ?_
  · intro name raw _ found
    rcases lookup_sampleDir found with ⟨-, rfl⟩ | ⟨-, rfl⟩
    · exact ⟨by decide, rfl⟩
    · exact ⟨by decide, rfl⟩
  · intro old new oldSame newSame _ misleads
    obtain rfl : old = sampleKey 1 := Subtype.ext oldSame
    obtain rfl : new = sampleKey 2 := Subtype.ext newSame
    cases misleads with
    | foreign read none done other =>
      exact none auditEnvelope (by decide) ⟨sampleEnvelope 1 [7], rfl, rfl⟩
    | swallowed read distinct known opens quiet lost =>
      rcases known (ascii "shard-0.env") (by decide) with ⟨raw, found, stamped⟩ | ⟨raw, found, stamped⟩
      · cases found
        exact absurd stamped (by decide)
      · cases found
        exact absurd stamped (by decide)

/-- A foreign file is passed over, and a failed rename is not reported: both runs succeed with a
file that is not under the new key. -/
theorem success_without_rotation :
    let foreign := sampleDir (sampleEnvelope 2 [7]) (sampleEnvelope 3 [8])
    let stale := sampleDir (sampleEnvelope 1 [7]) (sampleEnvelope 1 [8])
    let passed := rewrapEnvelopes .tagged (fun _ => .healthy) 0 (sampleKey 1).1 (sampleKey 2).1
      false foreign
    let broken := rewrapEnvelopes .tagged (fun _ => { Fates.healthy with rename := .fails 0 }) 0
      (sampleKey 1).1 (sampleKey 2).1 false stale
    (passed.1 = .ok ⟨0, 1, 2⟩ ∧
        passed.2.lookup (ascii "shard-0.env") = some (sampleEnvelope 3 [8])) ∧
      (broken.1 = .ok ⟨2, 0, 2⟩ ∧
        broken.2.lookup (ascii "shard-0.env") = some (sampleEnvelope 1 [8])) ∧
      Envelope.stamp (sampleEnvelope 3 [8]) ≠ fingerprintBytes .tagged (sampleKey 2) ∧
      Envelope.stamp (sampleEnvelope 1 [8]) ≠ fingerprintBytes .tagged (sampleKey 2) := by
  decide +kernel

end Tellstone
