import Tellstone.Crypto.Rewrap

/-! Rewrapping as a whole: what an interrupted run leaves of the envelopes, and what a run to
the end makes of them. -/
namespace Tellstone
open ByteStream FileOps

theorem exists_of_mem_right {α β : Type} {R : α → β → Prop} {as : List α} {bs : List β}
    (all : List.Forall₂ R as bs) {b : β} (mem : b ∈ bs) : ∃ a ∈ as, R a b := by
  induction all with
  | nil => cases mem
  | cons first _ ih =>
    rcases List.mem_cons.mp mem with rfl | later
    · exact ⟨_, List.mem_cons_self, first⟩
    · obtain ⟨a, found, related⟩ := ih later
      exact ⟨a, List.mem_cons_of_mem _ found, related⟩

def Prepared (P : Primitives) (old new : CipherKey) (entry : EnvelopeEntry)
    (write : Bytes × Bytes) : Prop :=
  write.1 = entry.name ∧
    ∃ dek draw, (CryptoEngine.chacha old).decryptInPlace P entry.wrapped = .ok dek ∧
      write.2 = Envelope.layout (fingerprintBytes P new)
        ((CryptoEngine.chacha new).encryptInPlace P draw dek)

section
variable {P : Primitives} {old new : CipherKey}

def stale (entries : List EnvelopeEntry) : List EnvelopeEntry :=
  entries.filter fun entry => decide (entry.status ≠ .new)

theorem prepare_cons (draw : Nat) {entry : EnvelopeEntry} (entries : List EnvelopeEntry)
    (status : entry.status ≠ .new) :
    prepare P old.1 (fingerprintBytes P new) (.ofKey new) draw (entry :: entries) =
      match (CryptoEngine.chacha old).decryptInPlace P entry.wrapped with
      | .error err => .error (.unwrapDEK entry.name err)
      | .ok dek =>
        match prepare P old.1 (fingerprintBytes P new) (.ofKey new) (draw + 1) entries with
        | .error err => .error err
        | .ok toWrite => .ok ((entry.name, Envelope.layout (fingerprintBytes P new)
            ((CryptoEngine.chacha new).encryptInPlace P draw dek)) :: toWrite) := by
  rw [prepare, if_neg status, Envelope.new_ofKey]
  rfl

theorem prepare_spec {entries : List EnvelopeEntry} {draw : Nat} {toWrite : List (Bytes × Bytes)}
    (ok : prepare P old.1 (fingerprintBytes P new) (.ofKey new) draw entries = .ok toWrite) :
    List.Forall₂ (Prepared P old new) (stale entries) toWrite := by
  induction entries generalizing draw toWrite with
  | nil =>
    cases ok
    exact .nil
  | cons entry entries ih =>
    by_cases status : entry.status = .new
    · rw [prepare, if_pos status] at ok
      simpa [stale, status] using ih ok
    · rw [prepare_cons draw entries status] at ok
      cases unwraps : (CryptoEngine.chacha old).decryptInPlace P entry.wrapped with
      | error err =>
        rw [unwraps] at ok
        cases ok
      | ok dek =>
        rw [unwraps] at ok
        cases rest : prepare P old.1 (fingerprintBytes P new) (.ofKey new) (draw + 1) entries with
        | error err =>
          rw [rest] at ok
          cases ok
        | ok others =>
          rw [rest] at ok
          cases ok
          have first : stale (entry :: entries) = entry :: stale entries := by
            simp [stale, status]
          rw [first]
          exact .cons ⟨rfl, dek, draw, unwraps, rfl⟩ (ih rest)

theorem prepare_ok_iff {entries : List EnvelopeEntry} {draw : Nat} :
    (∃ toWrite, prepare P old.1 (fingerprintBytes P new) (.ofKey new) draw entries = .ok toWrite) ↔
      ∀ entry ∈ stale entries,
        ∃ dek, (CryptoEngine.chacha old).decryptInPlace P entry.wrapped = .ok dek := by
  induction entries generalizing draw with
  | nil => simp [prepare, stale]
  | cons entry entries ih =>
    by_cases status : entry.status = .new
    · rw [prepare, if_pos status, ih]
      simp [stale, status]
    · have first : stale (entry :: entries) = entry :: stale entries := by
        simp [stale, status]
      rw [prepare_cons draw entries status, first, List.forall_mem_cons, ← @ih (draw + 1)]
      cases (CryptoEngine.chacha old).decryptInPlace P entry.wrapped with
      | error err => simp
      | ok dek =>
        cases prepare P old.1 (fingerprintBytes P new) (.ofKey new) (draw + 1) entries <;> simp

end

def Fates.quiet (f : Fates) (retainOld : Bool) : Bool :=
  (!retainOld || decide (f.backupRead = .done) && decide (f.backupWrite = .done)) &&
    (f.complete || f.swallowed)

section
variable {env : Bytes → Fates} {retainOld : Bool} {d : Dir}

def Only (path name : Bytes) : Prop := isEnvelope name = true → name = path

theorem only_tmpName (path : Bytes) : Only path (tmpName path) := by
  intro envelope
  rw [isEnvelope_tmpName] at envelope
  cases envelope

theorem backup_touches (f : Fates) (retainOld : Bool) (name : Bytes) :
    Touches (fun other => isEnvelope other = false) (backup f retainOld name) := by
  unfold backup
  split
  · apply Touches.mapError
    apply (Touches.readFile _ _ _).bind
    intro data
    exact Touches.writeFile _ _ (isEnvelope_bakName name) data
  · exact .pure _ _

theorem backup_ok_iff {f : Fates} {name : Bytes} (present : (d.lookup name).isSome = true) :
    (backup f retainOld name d).1 = .ok () ↔
      (!retainOld || decide (f.backupRead = .done) && decide (f.backupWrite = .done)) = true := by
  obtain ⟨data, found⟩ := Option.isSome_iff_exists.mp present
  cases retainOld with
  | false => simp [backup, Prog.pure_apply]
  | true =>
    simp only [backup, ↓reduceIte, Prog.mapError_ok_iff, copyFile, Prog.bind_ok_iff,
      readFile_ok_iff, readFile_state, found]
    cases f.backupRead <;> cases f.backupWrite <;> simp [writeFile]

theorem atomicWrite_touches (f : Fates) (path data : Bytes) :
    Touches (Only path) (atomicWrite f path data) := by
  have cleanup : Touches (Only path) (remove f.remove () (tmpName path)) :=
    .remove _ _ (only_tmpName path)
  have abandon : Touches (Only path) (do
      settle f.close ()
      remove f.remove () (tmpName path)) := (Touches.settle _ _).bind fun _ => cleanup
  apply (Touches.create _ _ (only_tmpName path)).bind
  intro _
  apply (Touches.write _ _ (only_tmpName path) data).attempt.bind
  rintro (_ | _)
  · exact abandon
  apply (Touches.settle _ _).attempt.bind
  rintro (_ | _)
  · exact abandon
  apply (Touches.settle _ _).attempt.bind
  rintro (_ | _)
  · exact cleanup
  apply (Touches.rename _ _ (only_tmpName path) fun _ => rfl).attempt.bind
  rintro (_ | _)
  · exact cleanup
  apply (Touches.settle _ _).bind
  intro _
  apply (Touches.settle _ _).attempt.bind
  rintro (_ | _)
  · exact (Touches.settle _ _).attempt.bind fun _ => .throw _ _
  · exact .settle _ _

def writeOne (f : Fates) (retainOld : Bool) (write : Bytes × Bytes) : Prog RewrapError Dir Unit := do
  backup f retainOld write.1
  (atomicWrite f write.1 write.2).mapError fun _ => RewrapError.write write.1

theorem writeAll_cons (write : Bytes × Bytes) (toWrite : List (Bytes × Bytes)) (d : Dir) :
    writeAll env retainOld (write :: toWrite) d =
      (writeOne (env write.1) retainOld write >>= fun _ => writeAll env retainOld toWrite) d := by
  simp only [writeAll, writeOne, Prog.bind_apply]
  rcases backup (env write.1) retainOld write.1 d with ⟨_ | _ | _, _⟩ <;> rfl

/-- One file: other envelopes stay, this one stays or is replaced, and on success it is known
which. -/
structure Wrote (f : Fates) (retainOld : Bool) (write : Bytes × Bytes) (d : Dir)
    (outcome : Outcome RewrapError Unit × Dir) : Prop where
  others : ∀ name, isEnvelope name = true → name ≠ write.1 →
    outcome.2.lookup name = d.lookup name
  file : outcome.2.lookup write.1 = d.lookup write.1 ∨ outcome.2.lookup write.1 = some write.2
  ok : outcome.1 = .ok () ↔ f.quiet retainOld = true
  landed : outcome.1 = .ok () →
    outcome.2.lookup write.1 = if f.landed then some write.2 else d.lookup write.1

theorem writeOne_wrote (f : Fates) (retainOld : Bool) {write : Bytes × Bytes} {d : Dir}
    (envelope : isEnvelope write.1 = true) (present : (d.lookup write.1).isSome = true) :
    Wrote f retainOld write d (writeOne f retainOld write d) := by
  have saved (name : Bytes) (kept : isEnvelope name = true) :
      (backup f retainOld write.1 d).2.lookup name = d.lookup name :=
    backup_touches f retainOld write.1 d name (by simp [kept])
  have backed := @backup_ok_iff retainOld d f write.1 present
  rw [writeOne, Prog.bind_apply]
  rcases ran : backup f retainOld write.1 d with ⟨_ | err | _, d₁⟩
  · rw [ran] at saved backed
    simp only [true_iff] at saved backed
    obtain ⟨file, ok⟩ := atomicWrite_spec f write.1 write.2 d₁
    rw [saved write.1 envelope] at file
    constructor
    · intro name kept other
      rw [Prog.mapError_state, atomicWrite_touches f write.1 write.2 d₁ name fun only => other (only kept)]
      exact saved name kept
    · rw [Prog.mapError_state, file]
      cases f.landed
      · exact Or.inl rfl
      · exact Or.inr rfl
    · rw [Prog.mapError_ok_iff, ok, Fates.quiet, backed, Bool.true_and, Bool.or_eq_true]
    · intro _
      rw [Prog.mapError_state, file]
  · rw [ran] at saved backed
    simp only [reduceCtorEq, false_iff, Bool.not_eq_true] at saved backed
    exact ⟨fun name kept _ => saved name kept, Or.inl (saved _ envelope),
      by simp [Fates.quiet, backed], by simp⟩
  · rw [ran] at saved backed
    simp only [reduceCtorEq, false_iff, Bool.not_eq_true] at saved backed
    exact ⟨fun name kept _ => saved name kept, Or.inl (saved _ envelope),
      by simp [Fates.quiet, backed], by simp⟩

structure WroteAll (env : Bytes → Fates) (retainOld : Bool) (toWrite : List (Bytes × Bytes))
    (d : Dir) (outcome : Outcome RewrapError Unit × Dir) : Prop where
  others : ∀ name, isEnvelope name = true → name ∉ toWrite.map Prod.fst →
    outcome.2.lookup name = d.lookup name
  files : ∀ write ∈ toWrite,
    outcome.2.lookup write.1 = d.lookup write.1 ∨ outcome.2.lookup write.1 = some write.2
  ok : outcome.1 = .ok () ↔ ∀ write ∈ toWrite, (env write.1).quiet retainOld = true
  landed : outcome.1 = .ok () → ∀ write ∈ toWrite,
    outcome.2.lookup write.1 =
      if (env write.1).landed then some write.2 else d.lookup write.1

theorem Wrote.stop {write : Bytes × Bytes} {toWrite : List (Bytes × Bytes)}
    {outcome : Outcome RewrapError Unit × Dir}
    (wrote : Wrote (env write.1) retainOld write d outcome) (failed : outcome.1 ≠ .ok ())
    (envelopes : ∀ next ∈ toWrite, isEnvelope next.1 = true ∧ next.1 ≠ write.1) :
    WroteAll env retainOld (write :: toWrite) d outcome where
  others name kept out := wrote.others name kept fun same => out (by simp [same])
  files := by
    rw [List.forall_mem_cons]
    refine ⟨wrote.file, fun next mem => Or.inl ?_⟩
    exact wrote.others next.1 (envelopes next mem).1 (envelopes next mem).2
  ok := by
    refine ⟨fun ok => absurd ok failed, fun quiet => absurd (wrote.ok.mpr ?_) failed⟩
    exact quiet write List.mem_cons_self
  landed ok := absurd ok failed

theorem Wrote.cons {write : Bytes × Bytes} {toWrite : List (Bytes × Bytes)} {d₁ : Dir}
    {outcome : Outcome RewrapError Unit × Dir}
    (wrote : Wrote (env write.1) retainOld write d (.ok (), d₁))
    (rest : WroteAll env retainOld toWrite d₁ outcome) (envelope : isEnvelope write.1 = true)
    (distinct : write.1 ∉ toWrite.map Prod.fst)
    (kept : ∀ next ∈ toWrite, d₁.lookup next.1 = d.lookup next.1) :
    WroteAll env retainOld (write :: toWrite) d outcome where
  others name kept out := by
    rw [List.map_cons, List.mem_cons, not_or] at out
    rw [rest.others name kept out.2]
    exact wrote.others name kept out.1
  files := by
    rw [List.forall_mem_cons]
    refine ⟨?_, fun next mem => ?_⟩
    · rw [rest.others write.1 envelope distinct]
      exact wrote.file
    · rw [← kept next mem]
      exact rest.files next mem
  ok := by
    rw [rest.ok, List.forall_mem_cons]
    exact ⟨fun quiet => ⟨wrote.ok.mp rfl, quiet⟩, fun quiet => quiet.2⟩
  landed ok := by
    rw [List.forall_mem_cons]
    refine ⟨?_, fun next mem => ?_⟩
    · rw [rest.others write.1 envelope distinct]
      exact wrote.landed rfl
    · rw [← kept next mem]
      exact rest.landed ok next mem

theorem writeAll_wrote (env : Bytes → Fates) (retainOld : Bool) {toWrite : List (Bytes × Bytes)}
    {d : Dir} (distinct : (toWrite.map Prod.fst).Nodup)
    (envelopes : ∀ write ∈ toWrite,
      isEnvelope write.1 = true ∧ (d.lookup write.1).isSome = true) :
    WroteAll env retainOld toWrite d (writeAll env retainOld toWrite d) := by
  induction toWrite generalizing d with
  | nil => exact ⟨fun _ _ _ => rfl, by simp, by simp [writeAll, Prog.pure_apply], by simp⟩
  | cons write toWrite ih =>
    rw [List.map_cons, List.nodup_cons] at distinct
    obtain ⟨envelope, present⟩ := envelopes write List.mem_cons_self
    have later : ∀ next ∈ toWrite, isEnvelope next.1 = true ∧ next.1 ≠ write.1 := by
      intro next mem
      refine ⟨(envelopes next (List.mem_cons_of_mem _ mem)).1, fun same => distinct.1 ?_⟩
      rw [← same]
      exact List.mem_map_of_mem mem
    have first := writeOne_wrote (env write.1) retainOld envelope present
    rw [writeAll_cons, Prog.bind_apply]
    rcases ran : writeOne (env write.1) retainOld write d with ⟨_ | err | _, d₁⟩
    · rw [ran] at first
      have kept : ∀ next ∈ toWrite, d₁.lookup next.1 = d.lookup next.1 := fun next mem =>
        first.others next.1 (later next mem).1 (later next mem).2
      refine first.cons (ih distinct.2 fun next mem => ?_) envelope distinct.1 kept
      rw [kept next mem]
      exact envelopes next (List.mem_cons_of_mem _ mem)
    · rw [ran] at first
      exact first.stop (by simp) later
    · rw [ran] at first
      exact first.stop (by simp) later

end

section
variable {P : Primitives} {env : Bytes → Fates} {old new : CipherKey} {retainOld : Bool} {d : Dir}

def entriesOf (P : Primitives) (old new : CipherKey) (d : Dir) : List EnvelopeEntry :=
  (findEnvelopeFiles d).map (entryOf (fingerprintBytes P old) (fingerprintBytes P new) d)

def fileStatus (P : Primitives) (old new : CipherKey) (d : Dir) (name : Bytes) : EnvelopeStatus :=
  (entryOf (fingerprintBytes P old) (fingerprintBytes P new) d name).status

/-- How a run goes: it fails before it writes, has nothing to do, or comes to the second
phase. -/
inductive Rewrapped (P : Primitives) (env : Bytes → Fates) (old new : CipherKey)
    (retainOld : Bool) (d : Dir) : Outcome RewrapError RewrapResult × Dir → Prop where
  | failed {outcome : Outcome RewrapError RewrapResult}
      (refused : ∀ result, outcome ≠ .ok result) :
      Rewrapped P env old new retainOld d (outcome, d)
  | skipped {result : RewrapResult} (read : ∀ name ∈ findEnvelopeFiles d, Readable env d name)
      (none : ∀ name ∈ findEnvelopeFiles d, fileStatus P old new d name ≠ .old)
      (done : ∃ name ∈ findEnvelopeFiles d, fileStatus P old new d name = .new) :
      Rewrapped P env old new retainOld d (.ok result, d)
  | wrote {outcome : Outcome RewrapError RewrapResult} {toWrite : List (Bytes × Bytes)}
      {written : Outcome RewrapError Unit × Dir}
      (read : ∀ name ∈ findEnvelopeFiles d, Readable env d name)
      (known : ∀ name ∈ findEnvelopeFiles d, fileStatus P old new d name ≠ .unknown)
      (prepared : List.Forall₂ (Prepared P old new) (stale (entriesOf P old new d)) toWrite)
      (all : WroteAll env retainOld toWrite d written)
      (ends : (∃ result, outcome = .ok result) ↔ written.1 = .ok ()) :
      Rewrapped P env old new retainOld d (outcome, written.2)

theorem countP_status (P : Primitives) (old new : CipherKey) (d : Dir) (status : EnvelopeStatus) :
    0 < (entriesOf P old new d).countP (fun e => decide (e.status = status)) ↔
      ∃ name ∈ findEnvelopeFiles d, fileStatus P old new d name = status := by
  simp [List.countP_pos_iff, entriesOf, fileStatus]

theorem names_of_prepared {entries : List EnvelopeEntry} {toWrite : List (Bytes × Bytes)}
    (prepared : List.Forall₂ (Prepared P old new) entries toWrite) :
    toWrite.map Prod.fst = entries.map (·.name) := by
  induction prepared with
  | nil => rfl
  | cons first _ ih => rw [List.map_cons, List.map_cons, ih, first.1]

theorem names_of_stale (P : Primitives) (old new : CipherKey) (d : Dir) :
    (stale (entriesOf P old new d)).map (·.name) =
      (findEnvelopeFiles d).filter fun name => decide (fileStatus P old new d name ≠ .new) := by
  rw [stale, entriesOf, List.filter_map, List.map_map]
  exact List.map_id' _

section
variable {toWrite : List (Bytes × Bytes)}
  (prepared : List.Forall₂ (Prepared P old new) (stale (entriesOf P old new d)) toWrite)

include prepared

theorem mem_toWrite {name : Bytes} : name ∈ toWrite.map Prod.fst ↔
    name ∈ findEnvelopeFiles d ∧ fileStatus P old new d name ≠ .new := by
  rw [names_of_prepared prepared, names_of_stale, List.mem_filter, decide_eq_true_eq]

theorem toWrite_nodup : (toWrite.map Prod.fst).Nodup := by
  rw [names_of_prepared prepared, names_of_stale]
  exact (findEnvelopeFiles_nodup d).filter _

theorem prepared_of_mem {write : Bytes × Bytes} (mem : write ∈ toWrite) :
    Prepared P old new
      (entryOf (fingerprintBytes P old) (fingerprintBytes P new) d write.1) write := by
  obtain ⟨entry, listed, ready⟩ := exists_of_mem_right prepared mem
  obtain ⟨name, -, rfl⟩ := List.mem_map.mp (List.mem_filter.mp listed).1
  have own : write.1 = name := ready.1
  rwa [own]

theorem toWrite_wrote (env : Bytes → Fates) (retainOld : Bool) :
    WroteAll env retainOld toWrite d (writeAll env retainOld toWrite d) := by
  refine writeAll_wrote env retainOld (toWrite_nodup prepared) fun write mem => ?_
  exact mem_findEnvelopeFiles.mp ((mem_toWrite prepared).mp (List.mem_map_of_mem mem)).1

end

theorem rewrapEntries_rewrapped (draw : Nat)
    (read : ∀ name ∈ findEnvelopeFiles d, Readable env d name) :
    Rewrapped P env old new retainOld d
      (rewrapEntries P env draw old.1 new.1 retainOld (entriesOf P old new d) d) := by
  simp only [rewrapEntries, Envelope.new_ofKey]
  split
  · rename_i counts
    refine .skipped read (fun name mem status => ?_) ((countP_status P old new d .new).mp counts.2)
    exact Nat.ne_of_gt ((countP_status P old new d .old).mpr ⟨name, mem, status⟩) counts.1
  split
  · exact .failed (by simp)
  split
  · exact .failed (by simp)
  rename_i known
  cases ready : prepare P old.1 (fingerprintBytes P new) (.ofKey new) draw
      (entriesOf P old new d) with
  | error err => exact .failed (by simp)
  | ok toWrite =>
    have prepared := prepare_spec ready
    have all := toWrite_wrote prepared env retainOld
    have recognized : ∀ name ∈ findEnvelopeFiles d, fileStatus P old new d name ≠ .unknown :=
      fun name mem status => known ((countP_status P old new d .unknown).mpr ⟨name, mem, status⟩)
    have lifted : (liftExcept (.ok toWrite) : Prog RewrapError Dir _) d = (.ok toWrite, d) := rfl
    rw [Prog.bind_ok lifted, Prog.bind_apply]
    rcases ran : writeAll env retainOld toWrite d with ⟨_ | err | _, t⟩
    · rw [ran] at all
      exact .wrote read recognized prepared all (by simp)
    · rw [ran] at all
      exact .wrote read recognized prepared all (by simp)
    · rw [ran] at all
      exact .wrote read recognized prepared all (by simp)

theorem rewrapEnvelopes_rewrapped (P : Primitives) (env : Bytes → Fates) (draw : Nat)
    (old new : CipherKey) (retainOld : Bool) (d : Dir) :
    Rewrapped P env old new retainOld d
      (rewrapEnvelopes P env draw old.1 new.1 retainOld d) := by
  unfold rewrapEnvelopes
  split
  · exact .failed (by simp)
  split
  · exact .failed (by simp)
  split
  · exact .failed (by simp)
  simp only
  split
  · exact .failed (by simp)
  rw [Prog.bind_apply]
  have same := @readEntries_state env (fingerprintBytes P old) (fingerprintBytes P new) d
    (findEnvelopeFiles d)
  rcases ran : readEntries env (fingerprintBytes P old) (fingerprintBytes P new)
    (findEnvelopeFiles d) d with ⟨entries | err | _, t⟩
  · rw [ran] at same
    obtain rfl : t = d := same
    obtain ⟨read, rfl⟩ := readEntries_ok_iff.mp (congrArg Prod.fst ran)
    exact rewrapEntries_rewrapped draw read
  · rw [ran] at same
    obtain rfl : t = d := same
    exact .failed (by simp)
  · rw [ran] at same
    obtain rfl : t = d := same
    exact .failed (by simp)

section
variable (other : old ≠ new) (draw : Nat)
  (read : ∀ name ∈ findEnvelopeFiles d, Readable env d name)

include other read

theorem rewrapEnvelopes_read (any : ∃ name, name ∈ findEnvelopeFiles d) :
    rewrapEnvelopes P env draw old.1 new.1 retainOld d =
      rewrapEntries P env draw old.1 new.1 retainOld (entriesOf P old new d) d := by
  obtain ⟨name, mem⟩ := any
  have found : (findEnvelopeFiles d).length ≠ 0 := List.length_pos_of_mem mem |>.ne'
  have differ : old.1 ≠ new.1 := fun same => other (Subtype.ext same)
  have ok := (@readEntries_ok_iff env (fingerprintBytes P old) (fingerprintBytes P new) d _ _).mpr
    ⟨read, rfl⟩
  have state := @readEntries_state env (fingerprintBytes P old) (fingerprintBytes P new) d
    (findEnvelopeFiles d)
  have oldFits : old.1.length = keySize := old.2
  have newFits : new.1.length = keySize := new.2
  simp only [rewrapEnvelopes, oldFits, newFits, differ, found, ne_eq, not_true_eq_false, if_false]
  exact Prog.bind_ok (Prod.ext ok state) _

theorem rewrapEnvelopes_skips
    (none : ∀ name ∈ findEnvelopeFiles d, fileStatus P old new d name ≠ .old)
    (done : ∃ name ∈ findEnvelopeFiles d, fileStatus P old new d name = .new) :
    ∃ result, (rewrapEnvelopes P env draw old.1 new.1 retainOld d).1 = .ok result := by
  have news := (countP_status P old new d .new).mpr done
  have olds : (entriesOf P old new d).countP (fun e => decide (e.status = .old)) = 0 := by
    by_contra some
    obtain ⟨name, mem, status⟩ :=
      (countP_status P old new d .old).mp (Nat.pos_of_ne_zero some)
    exact none name mem status
  rw [rewrapEnvelopes_read other draw read ⟨done.choose, done.choose_spec.1⟩, rewrapEntries,
    if_pos ⟨olds, news⟩]
  exact ⟨_, rfl⟩

theorem rewrapEnvelopes_writes
    (any : ∃ name ∈ findEnvelopeFiles d, fileStatus P old new d name = .old)
    (known : ∀ name ∈ findEnvelopeFiles d, fileStatus P old new d name ≠ .unknown)
    (unwraps : ∀ name ∈ findEnvelopeFiles d, fileStatus P old new d name = .old →
      ∃ raw dek, d.lookup name = some raw ∧ (Envelope.ofKey old).load P raw = .ok dek)
    (quiet : ∀ name ∈ findEnvelopeFiles d, fileStatus P old new d name = .old →
      (env name).quiet retainOld = true) :
    ∃ result, (rewrapEnvelopes P env draw old.1 new.1 retainOld d).1 = .ok result := by
  have olds := (countP_status P old new d .old).mpr any
  have unknowns : ¬ 0 < (entriesOf P old new d).countP (fun e => decide (e.status = .unknown)) := by
    intro foreign
    obtain ⟨name, mem, status⟩ := (countP_status P old new d .unknown).mp foreign
    exact known name mem status
  have isOld {name : Bytes} (mem : name ∈ findEnvelopeFiles d)
      (status : fileStatus P old new d name ≠ .new) : fileStatus P old new d name = .old := by
    cases kind : fileStatus P old new d name with
    | old => rfl
    | new => exact absurd kind status
    | unknown => exact absurd kind (known name mem)
  have opens : ∀ entry ∈ stale (entriesOf P old new d),
      ∃ dek, (CryptoEngine.chacha old).decryptInPlace P entry.wrapped = .ok dek := by
    intro entry listed
    obtain ⟨member, status⟩ := List.mem_filter.mp listed
    obtain ⟨name, mem, rfl⟩ := List.mem_map.mp member
    obtain ⟨raw, dek, found, loads⟩ := unwraps name mem (isOld mem (of_decide_eq_true status))
    refine ⟨dek, ?_⟩
    rw [entryOf, found]
    exact (Envelope.load_ok_iff.mp loads).2.2
  obtain ⟨toWrite, ready⟩ := (@prepare_ok_iff P old new _ draw).mpr opens
  have prepared := prepare_spec ready
  have all := toWrite_wrote prepared env retainOld
  have wrote : (writeAll env retainOld toWrite d).1 = .ok () := by
    refine all.ok.mpr fun write listed => ?_
    obtain ⟨mem, status⟩ := (mem_toWrite prepared).mp (List.mem_map_of_mem listed)
    exact quiet write.1 mem (isOld mem status)
  have lifted : (liftExcept (.ok toWrite) : Prog RewrapError Dir _) d = (.ok toWrite, d) := rfl
  rw [rewrapEnvelopes_read other draw read ⟨any.choose, any.choose_spec.1⟩]
  simp only [rewrapEntries, Envelope.new_ofKey, olds.ne', unknowns, false_and, if_false]
  rw [ready, Prog.bind_ok lifted, Prog.bind_ok (Prod.ext wrote rfl)]
  exact ⟨_, rfl⟩

end

def Unwraps (P : Primitives) (old new : CipherKey) (raw dek : Bytes) : Prop :=
  (Envelope.ofKey old).load P raw = .ok dek ∨ (Envelope.ofKey new).load P raw = .ok dek

/-- Every envelope of `d` is one of `d'`, with the same key, and there are no others. -/
def Intact (P : Primitives) (old new : CipherKey) (d d' : Dir) : Prop :=
  ∀ name, isEnvelope name = true →
    (d'.lookup name).isSome = (d.lookup name).isSome ∧
    ∀ raw dek, d.lookup name = some raw → Unwraps P old new raw dek →
      ∃ raw', d'.lookup name = some raw' ∧ Unwraps P old new raw' dek

theorem Intact.refl (P : Primitives) (old new : CipherKey) (d : Dir) : Intact P old new d d :=
  fun _ _ => ⟨rfl, fun raw _ found unwraps => ⟨raw, found, unwraps⟩⟩

theorem Intact.trans {d₁ d₂ d₃ : Dir} (first : Intact P old new d₁ d₂)
    (second : Intact P old new d₂ d₃) : Intact P old new d₁ d₃ := by
  intro name envelope
  obtain ⟨there, kept⟩ := first name envelope
  obtain ⟨still, keeps⟩ := second name envelope
  refine ⟨still.trans there, fun raw dek found unwraps => ?_⟩
  obtain ⟨raw', found', unwraps'⟩ := kept raw dek found unwraps
  exact keeps raw' dek found' unwraps'

theorem Prepared.loads (law : P.Lawful) {write : Bytes × Bytes} {raw dek : Bytes}
    (prepared : Prepared P old new
      (entryOf (fingerprintBytes P old) (fingerprintBytes P new) d write.1) write)
    (found : d.lookup write.1 = some raw) (loads : (Envelope.ofKey old).load P raw = .ok dek) :
    (Envelope.ofKey new).load P write.2 = .ok dek := by
  obtain ⟨-, key, draw, opened, contents⟩ := prepared
  obtain ⟨-, -, opens⟩ := Envelope.load_ok_iff.mp loads
  rw [entryOf, found] at opened
  cases opens.symm.trans opened
  rw [contents]
  exact Envelope.load_layout law new draw dek

theorem fileStatus_of_lookup {name raw : Bytes} (found : d.lookup name = some raw) :
    fileStatus P old new d name =
      stampStatus (fingerprintBytes P old) (fingerprintBytes P new) (Envelope.stamp raw) := by
  rw [fileStatus, entryOf, found]
  rfl

section
variable (distinct : fingerprintBytes P old = fingerprintBytes P new → old = new)

include distinct

theorem Unwraps.status {name raw dek : Bytes} (unwraps : Unwraps P old new raw dek)
    (found : d.lookup name = some raw) :
    (fileStatus P old new d name = .old ∧ (Envelope.ofKey old).load P raw = .ok dek) ∨
      (fileStatus P old new d name = .new ∧ (Envelope.ofKey new).load P raw = .ok dek) := by
  rw [fileStatus_of_lookup found, stampStatus]
  rcases unwraps with loads | loads
  · exact Or.inl ⟨if_pos (Envelope.load_ok_iff.mp loads).2.1, loads⟩
  · have named := (Envelope.load_ok_iff.mp loads).2.1
    by_cases under : Envelope.stamp raw = fingerprintBytes P old
    · rw [if_pos under, distinct (under.symm.trans named)]
      exact Or.inl ⟨rfl, loads⟩
    · rw [if_neg under, if_pos named]
      exact Or.inr ⟨rfl, loads⟩

theorem Rewrapped.intact (law : P.Lawful) {outcome : Outcome RewrapError RewrapResult × Dir}
    (ran : Rewrapped P env old new retainOld d outcome) : Intact P old new d outcome.2 := by
  cases ran with
  | failed refused => exact .refl P old new d
  | skipped read none done => exact .refl P old new d
  | @wrote outcome toWrite written read known prepared all ends =>
    intro name envelope
    by_cases listed : name ∈ toWrite.map Prod.fst
    · obtain ⟨write, mem, rfl⟩ := List.mem_map.mp listed
      obtain ⟨found, status⟩ := (mem_toWrite prepared).mp listed
      rcases all.files write mem with kept | replaced
      · rw [kept]
        exact ⟨rfl, fun raw _ found unwraps => ⟨raw, found, unwraps⟩⟩
      · rw [replaced, (mem_findEnvelopeFiles.mp found).2]
        refine ⟨rfl, fun raw dek here unwraps => ⟨write.2, rfl, Or.inr ?_⟩⟩
        rcases unwraps.status distinct here with ⟨-, loads⟩ | ⟨done, -⟩
        · exact (prepared_of_mem prepared mem).loads law here loads
        · exact absurd done status
    · rw [all.others name envelope listed]
      exact ⟨rfl, fun raw _ found unwraps => ⟨raw, found, unwraps⟩⟩

theorem Rewrapped.loads (law : P.Lawful) {result : RewrapResult} {d' : Dir}
    (ran : Rewrapped P env old new retainOld d (.ok result, d'))
    (landed : ∀ name, (env name).landed = true) {name raw dek : Bytes}
    (envelope : isEnvelope name = true) (found : d.lookup name = some raw)
    (unwraps : Unwraps P old new raw dek) :
    ∃ raw', d'.lookup name = some raw' ∧ (Envelope.ofKey new).load P raw' = .ok dek := by
  have mem := mem_findEnvelopeFiles.mpr ⟨envelope, by rw [found]; rfl⟩
  cases ran with
  | failed refused => exact absurd rfl (refused result)
  | skipped read none done =>
    rcases unwraps.status distinct found with ⟨status, -⟩ | ⟨-, loads⟩
    · exact absurd status (none name mem)
    · exact ⟨raw, found, loads⟩
  | @wrote _ toWrite written read known prepared all ends =>
    have ok := ends.mp ⟨result, rfl⟩
    rcases unwraps.status distinct found with ⟨status, loads⟩ | ⟨status, loads⟩
    · have listed : name ∈ toWrite.map Prod.fst :=
        (mem_toWrite prepared).mpr ⟨mem, by rw [status]; simp⟩
      obtain ⟨write, member, rfl⟩ := List.mem_map.mp listed
      refine ⟨write.2, ?_, (prepared_of_mem prepared member).loads law found loads⟩
      rw [all.landed ok write member, if_pos (landed write.1)]
    · have unlisted : name ∉ toWrite.map Prod.fst := fun listed =>
        ((mem_toWrite prepared).mp listed).2 status
      rw [all.others name envelope unlisted]
      exact ⟨raw, found, loads⟩

theorem healthy_ok (other : old ≠ new) (draw : Nat) (any : ∃ name, name ∈ findEnvelopeFiles d)
    (wrapped : ∀ name ∈ findEnvelopeFiles d,
      ∃ raw dek, d.lookup name = some raw ∧ Unwraps P old new raw dek) :
    ∃ result,
      (rewrapEnvelopes P (fun _ => .healthy) draw old.1 new.1 retainOld d).1 = .ok result := by
  have read : ∀ name ∈ findEnvelopeFiles d, Readable (fun _ => .healthy) d name := by
    intro name mem
    obtain ⟨raw, dek, found, unwraps⟩ := wrapped name mem
    refine ⟨rfl, raw, found, ?_⟩
    rcases unwraps with loads | loads
    · exact (Envelope.load_ok_iff.mp loads).1
    · exact (Envelope.load_ok_iff.mp loads).1
  have status (name : Bytes) (mem : name ∈ findEnvelopeFiles d) :
      (fileStatus P old new d name = .old ∧
        ∃ raw dek, d.lookup name = some raw ∧ (Envelope.ofKey old).load P raw = .ok dek) ∨
      fileStatus P old new d name = .new := by
    obtain ⟨raw, dek, found, unwraps⟩ := wrapped name mem
    rcases unwraps.status distinct found with ⟨old, loads⟩ | ⟨new, -⟩
    · exact Or.inl ⟨old, raw, dek, found, loads⟩
    · exact Or.inr new
  by_cases olds : ∃ name ∈ findEnvelopeFiles d, fileStatus P old new d name = .old
  · refine rewrapEnvelopes_writes other draw read olds ?_ ?_ ?_
    · intro name mem unknown
      rcases status name mem with ⟨old, -⟩ | new
      · simp [old] at unknown
      · simp [new] at unknown
    · intro name mem old
      rcases status name mem with ⟨-, opens⟩ | new
      · exact opens
      · simp [new] at old
    · intro name mem old
      cases retainOld <;> rfl
  · have none : ∀ name ∈ findEnvelopeFiles d, fileStatus P old new d name ≠ .old :=
      fun name mem old => olds ⟨name, mem, old⟩
    refine rewrapEnvelopes_skips other draw read none ?_
    obtain ⟨name, mem⟩ := any
    refine ⟨name, mem, ?_⟩
    rcases status name mem with ⟨old, -⟩ | new
    · exact absurd old (none name mem)
    · exact new

end

end

/-- One run: its file operations, its first nonce, and whether old envelopes are kept. -/
structure Attempt where
  env : Bytes → Fates
  draw : Nat
  retainOld : Bool

/-- The directory after some runs with the same keys, each broken off wherever its fates say. -/
def afterAttempts (P : Primitives) (old new : CipherKey) (d : Dir) (attempts : List Attempt) :
    Dir :=
  attempts.foldl
    (fun d attempt =>
      (rewrapEnvelopes P attempt.env attempt.draw old.1 new.1 attempt.retainOld d).2) d

section
variable {P : Primitives} {old new : CipherKey}
  (distinct : fingerprintBytes P old = fingerprintBytes P new → old = new)

include distinct

theorem afterAttempts_intact (law : P.Lawful) (d : Dir) (attempts : List Attempt) :
    Intact P old new d (afterAttempts P old new d attempts) := by
  induction attempts generalizing d with
  | nil => exact .refl P old new d
  | cons attempt attempts ih =>
    have first := (rewrapEnvelopes_rewrapped P attempt.env attempt.draw old new attempt.retainOld
      d).intact distinct law
    exact first.trans (ih _)

/-- Runs that break off anywhere leave every envelope with its key, and a run that comes to its
end then leaves it under the new one. -/
theorem rewrap_restartable (law : P.Lawful) (d : Dir) (attempts : List Attempt) (draw : Nat)
    (retainOld : Bool)
    (wrapped : ∀ name raw, isEnvelope name = true → d.lookup name = some raw →
      ∃ dek, Unwraps P old new raw dek) :
    let left := afterAttempts P old new d attempts
    let last := rewrapEnvelopes P (fun _ => .healthy) draw old.1 new.1 retainOld left
    Intact P old new d left ∧ Intact P old new d last.2 ∧
      (old ≠ new → findEnvelopeFiles d ≠ [] → ∃ result, last.1 = .ok result) ∧
      ∀ name raw dek, isEnvelope name = true → d.lookup name = some raw →
        Unwraps P old new raw dek →
        ∃ raw', last.2.lookup name = some raw' ∧ (Envelope.ofKey new).load P raw' = .ok dek := by
  intro left last
  have intact : Intact P old new d left := afterAttempts_intact distinct law d attempts
  have ran : Rewrapped P (fun _ => .healthy) old new retainOld left last :=
    rewrapEnvelopes_rewrapped P _ draw old new retainOld left
  have ends := intact.trans (ran.intact distinct law)
  have succeeds (other : old ≠ new) (any : ∃ name, name ∈ findEnvelopeFiles d) :
      ∃ result, last.1 = .ok result := by
    apply healthy_ok distinct other draw
    · obtain ⟨name, mem⟩ := any
      obtain ⟨envelope, present⟩ := mem_findEnvelopeFiles.mp mem
      exact ⟨name, mem_findEnvelopeFiles.mpr ⟨envelope, (intact name envelope).1.trans present⟩⟩
    · intro name mem
      obtain ⟨envelope, present⟩ := mem_findEnvelopeFiles.mp mem
      obtain ⟨there, kept⟩ := intact name envelope
      obtain ⟨raw, found⟩ := Option.isSome_iff_exists.mp (there.symm.trans present)
      obtain ⟨dek, unwraps⟩ := wrapped name raw envelope found
      obtain ⟨raw', found', unwraps'⟩ := kept raw dek found unwraps
      exact ⟨raw', dek, found', unwraps'⟩
  refine ⟨intact, ends, ?_, ?_⟩
  · intro other any
    exact succeeds other (List.exists_mem_of_ne_nil _ any)
  · intro name raw dek envelope found unwraps
    by_cases same : old = new
    · obtain ⟨raw', found', unwraps'⟩ := (ends name envelope).2 raw dek found unwraps
      rw [Unwraps, same, or_self] at unwraps'
      exact ⟨raw', found', unwraps'⟩
    · obtain ⟨result, ok⟩ := succeeds same
        ⟨name, mem_findEnvelopeFiles.mpr ⟨envelope, by rw [found]; rfl⟩⟩
      obtain ⟨raw', found', unwraps'⟩ := (intact name envelope).2 raw dek found unwraps
      have ended : (Outcome.ok result, last.2) = last := by rw [← ok]
      rw [← ended] at ran
      exact ran.loads distinct law (fun _ => rfl) envelope found' unwraps'

end

def sampleKey (b : UInt8) : CipherKey := ⟨List.replicate 32 b, List.length_replicate⟩

def sampleEnvelope (key : UInt8) (dek : Bytes) : Bytes :=
  Envelope.layout (fingerprintBytes .tagged (sampleKey key))
    ((CryptoEngine.chacha (sampleKey key)).encryptInPlace .tagged 0 dek)

def sampleDir (audit shard : Bytes) : Dir :=
  ((∅ : Dir).insert (ascii "shard-0.env") shard).insert auditEnvelope audit

theorem lookup_sampleDir {audit shard name raw : Bytes}
    (found : (sampleDir audit shard).lookup name = some raw) :
    name = auditEnvelope ∧ raw = audit ∨ name = ascii "shard-0.env" ∧ raw = shard := by
  unfold sampleDir at found
  by_cases first : name = auditEnvelope
  · subst first
    rw [AList.lookup_insert, Option.some.injEq] at found
    exact Or.inl ⟨rfl, found.symm⟩
  · rw [AList.lookup_insert_ne first] at found
    by_cases second : name = ascii "shard-0.env"
    · subst second
      rw [AList.lookup_insert, Option.some.injEq] at found
      exact Or.inr ⟨rfl, found.symm⟩
    · rw [AList.lookup_insert_ne second] at found
      cases found

/-- The first file has its new contents, and the process dies at the rename of the second. -/
def betweenFiles : Attempt where
  env name := if name = auditEnvelope then .healthy else { Fates.healthy with rename := .dies 0 }
  draw := 3
  retainOld := false

theorem rewrap_restartable_between : ∃ raw,
    (rewrapEnvelopes .tagged (fun _ => .healthy) 9 (sampleKey 1).1 (sampleKey 2).1 true
      (afterAttempts .tagged (sampleKey 1) (sampleKey 2)
        (sampleDir (sampleEnvelope 1 [7]) (sampleEnvelope 1 [8])) [betweenFiles])).2.lookup
        (ascii "shard-0.env") = some raw ∧
      (Envelope.ofKey (sampleKey 2)).load .tagged raw = .ok [8] := by
  have opens (dek : Bytes) := Envelope.load_layout Primitives.tagged_lawful (sampleKey 1) 0 dek
  have distinct : fingerprintBytes .tagged (sampleKey 1) ≠ fingerprintBytes .tagged (sampleKey 2) :=
    by decide
  obtain ⟨-, -, -, loads⟩ := rewrap_restartable (fun same => absurd same distinct)
    Primitives.tagged_lawful (sampleDir (sampleEnvelope 1 [7]) (sampleEnvelope 1 [8]))
    [betweenFiles] 9 true (by
      intro name raw _ found
      rcases lookup_sampleDir found with ⟨-, rfl⟩ | ⟨-, rfl⟩
      · exact ⟨[7], Or.inl (opens [7])⟩
      · exact ⟨[8], Or.inl (opens [8])⟩)
  exact loads (ascii "shard-0.env") (sampleEnvelope 1 [8]) [8] rfl rfl (Or.inl (opens [8]))

end Tellstone
