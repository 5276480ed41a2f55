import Mathlib.Data.List.Sort
import Tellstone.Crypto.Envelope
import Tellstone.Lib.FileOps

/-! Rotation of the key encryption key: every envelope of a directory is wrapped anew. -/
namespace Tellstone
open ByteStream FileOps

def auditEnvelope : Bytes := ascii "audit.env"

def isShardEnvelope (name : Bytes) : Bool :=
  decide (10 ≤ name.length) && decide (name.take 6 = ascii "shard-") &&
    decide (name.drop (name.length - 4) = ascii ".env")

def tmpName (name : Bytes) : Bytes := name ++ ascii ".tmp"

def bakName (name : Bytes) : Bytes := name ++ ascii ".bak"

def findEnvelopeFiles (d : Dir) : List Bytes :=
  let shards := d.keys.filter isShardEnvelope
  let found := shards ++ if (d.lookup auditEnvelope).isSome then [auditEnvelope] else []
  found.insertionSort fun a b => ¬ b < a

/-- What becomes of each operation on one envelope file in a run. -/
structure Fates where
  read : Fate
  backupRead : Fate
  backupWrite : Fate
  create : Fate
  write : Fate
  sync : Fate
  close : Fate
  rename : Fate
  remove : Fate
  openDir : Fate
  syncDir : Fate
  closeDir : Fate
  deriving DecidableEq, Repr

def Fates.healthy : Fates :=
  ⟨.done, .done, .done, .done, .done, .done, .done, .done, .done, .done, .done, .done⟩

/-- When the cleanup after a failure succeeds, the failure is forgotten. -/
def atomicWrite (f : Fates) (path data : Bytes) : Prog Unit Dir Unit := do
  let tmp := tmpName path
  create f.create () tmp
  match ← (write f.write () tmp data).attempt with
  | .error _ => do
    settle f.close ()
    remove f.remove () tmp
  | .ok _ =>
    match ← (settle f.sync ()).attempt with
    | .error _ => do
      settle f.close ()
      remove f.remove () tmp
    | .ok _ =>
      match ← (settle f.close ()).attempt with
      | .error _ => remove f.remove () tmp
      | .ok _ =>
        match ← (rename f.rename () tmp path).attempt with
        | .error _ => remove f.remove () tmp
        | .ok _ => do
          settle f.openDir ()
          match ← (settle f.syncDir ()).attempt with
          | .error err => do
            let _ ← (settle f.closeDir ()).attempt
            Prog.throw err
          | .ok _ => settle f.closeDir ()

def copyFile (f : Fates) (src dst : Bytes) : Prog Unit Dir Unit := do
  let data ← readFile f.backupRead () src
  writeFile f.backupWrite () dst data

inductive RewrapError where
  | oldKEKLength (got : Nat)
  | newKEKLength (got : Nat)
  | identicalKEKs
  | noEnvelopes
  | read (name : Bytes)
  | unsupportedFormat (name : Bytes)
  | oldKeyMismatch
  | mixedKeys (unrecognized : Nat)
  | initNewKEK (cause : Error)
  | initOldKEK (cause : Error)
  | unwrapDEK (name : Bytes) (cause : Error)
  | backup (name : Bytes)
  | write (name : Bytes)
  deriving DecidableEq, Repr

structure RewrapResult where
  rewrapped : Nat
  skipped : Nat
  total : Nat
  deriving DecidableEq, Repr

/-- Under the old key, under the new one, or under neither. -/
inductive EnvelopeStatus where
  | old
  | new
  | unknown
  deriving DecidableEq, Repr

structure EnvelopeEntry where
  name : Bytes
  status : EnvelopeStatus
  wrapped : Bytes
  deriving DecidableEq, Repr

def stampStatus (oldFP newFP fp : Bytes) : EnvelopeStatus :=
  if fp = oldFP then .old else if fp = newFP then .new else .unknown

def classify (oldFP newFP name raw : Bytes) : Except RewrapError EnvelopeEntry :=
  let headerLen := 1 + envFingerprintLen
  if raw.length < headerLen ∨ raw.headD 0 ≠ envVersion then .error (.unsupportedFormat name)
  else
    .ok ⟨name, stampStatus oldFP newFP ((raw.drop 1).take envFingerprintLen), raw.drop headerLen⟩

def liftExcept {ε σ α : Type} : Except ε α → Prog ε σ α
  | .ok value => pure value
  | .error err => Prog.throw err

def readEntries (env : Bytes → Fates) (oldFP newFP : Bytes) :
    List Bytes → Prog RewrapError Dir (List EnvelopeEntry)
  | [] => pure []
  | name :: names => do
    let raw ← readFile (env name).read (.read name) name
    let entry ← liftExcept (classify oldFP newFP name raw)
    let entries ← readEntries env oldFP newFP names
    pure (entry :: entries)

/-- The first phase: the new contents of every file not under the new key. -/
def prepare (P : Primitives) (oldKEK newFP : Bytes) (newEnv : Envelope) :
    Nat → List EnvelopeEntry → Except RewrapError (List (Bytes × Bytes))
  | _, [] => .ok []
  | draw, entry :: entries =>
    if entry.status = .new then prepare P oldKEK newFP newEnv draw entries
    else
      match Envelope.new oldKEK with
      | .error err => .error (.initOldKEK err)
      | .ok oldEnv =>
        match oldEnv.decrypt P entry.wrapped with
        | .error err => .error (.unwrapDEK entry.name err)
        | .ok dek =>
          let wrapped := { newEnv with dek := dek }.encrypt P draw
          match prepare P oldKEK newFP newEnv (draw + 1) entries with
          | .error err => .error err
          | .ok toWrite => .ok ((entry.name, Envelope.layout newFP wrapped) :: toWrite)

def backup (f : Fates) (retainOld : Bool) (name : Bytes) : Prog RewrapError Dir Unit :=
  if retainOld then (copyFile f name (bakName name)).mapError fun _ => .backup name else pure ()

def writeAll (env : Bytes → Fates) (retainOld : Bool) :
    List (Bytes × Bytes) → Prog RewrapError Dir Unit
  | [] => pure ()
  | (name, buf) :: toWrite => do
    backup (env name) retainOld name
    (atomicWrite (env name) name buf).mapError fun _ => RewrapError.write name
    writeAll env retainOld toWrite

def rewrapEntries (P : Primitives) (env : Bytes → Fates) (draw : Nat) (oldKEK newKEK : Bytes)
    (retainOld : Bool) (entries : List EnvelopeEntry) : Prog RewrapError Dir RewrapResult :=
  let count (status : EnvelopeStatus) := entries.countP fun e => decide (e.status = status)
  if count .old = 0 ∧ 0 < count .new then pure ⟨0, count .new, entries.length⟩
  else if count .old = 0 then Prog.throw .oldKeyMismatch
  else if 0 < count .unknown then Prog.throw (.mixedKeys (count .unknown))
  else
    match Envelope.new newKEK with
    | .error err => Prog.throw (.initNewKEK err)
    | .ok newEnv => do
      let toWrite ← liftExcept (prepare P oldKEK (fingerprintBytes P newKEK) newEnv draw entries)
      writeAll env retainOld toWrite
      pure ⟨toWrite.length, count .new, entries.length⟩

/-- `env` is what becomes of the file operations, and `draw` the first nonce. -/
def rewrapEnvelopes (P : Primitives) (env : Bytes → Fates) (draw : Nat) (oldKEK newKEK : Bytes)
    (retainOld : Bool) : Prog RewrapError Dir RewrapResult := fun d =>
  if oldKEK.length ≠ keySize then (.error (.oldKEKLength oldKEK.length), d)
  else if newKEK.length ≠ keySize then (.error (.newKEKLength newKEK.length), d)
  else if oldKEK = newKEK then (.error .identicalKEKs, d)
  else
    let found := findEnvelopeFiles d
    if found.length = 0 then (.error .noEnvelopes, d)
    else
      (do
        let entries ← readEntries env (fingerprintBytes P oldKEK) (fingerprintBytes P newKEK) found
        rewrapEntries P env draw oldKEK newKEK retainOld entries : Prog RewrapError Dir _) d

namespace Fates

def failed : Fate → Bool
  | .fails _ => true
  | _ => false

def landed (f : Fates) : Bool :=
  decide (f.create = .done) && decide (f.write = .done) && decide (f.sync = .done) &&
    decide (f.close = .done) &&
    match f.rename with
    | .done => true
    | .fails _ => false
    | .dies part => decide (part ≠ 0)

def complete (f : Fates) : Bool :=
  decide (f.create = .done) && decide (f.write = .done) && decide (f.sync = .done) &&
    decide (f.close = .done) && decide (f.rename = .done) && decide (f.openDir = .done) &&
    decide (f.syncDir = .done) && decide (f.closeDir = .done)

def swallowed (f : Fates) : Bool :=
  decide (f.create = .done) && decide (f.remove = .done) &&
    (failed f.write && decide (f.close = .done) ||
      decide (f.write = .done) &&
        (failed f.sync && decide (f.close = .done) ||
          decide (f.sync = .done) &&
            (failed f.close || decide (f.close = .done) && failed f.rename)))

end Fates

theorem tmpName_ne (path : Bytes) : tmpName path ≠ path := by
  intro same
  have size := congrArg List.length same
  simp [tmpName, ascii] at size

section
variable {path tmp : Bytes} (other : path ≠ tmp)

include other

theorem remove_spec (fate : Fate) (d : Dir) :
    (remove fate () tmp d).2.lookup path = d.lookup path ∧
      ((remove fate () tmp d).1 = .ok () ↔ fate = .done) := by
  have gone : (d.erase tmp).lookup path = d.lookup path := AList.lookup_erase_ne other
  cases fate with
  | done => simp [remove, atomically, gone]
  | fails part => simp [remove, atomically]
  | dies part =>
    simp only [remove, atomically]
    split <;> simp [gone]

theorem abandon_spec (close cleanup : Fate) (d : Dir) :
    let r := (do
      settle close ()
      remove cleanup () tmp : Prog Unit Dir Unit) d
    r.2.lookup path = d.lookup path ∧ (r.1 = .ok () ↔ close = .done ∧ cleanup = .done) := by
  simp only [Prog.bind_apply, settle_apply]
  cases close with
  | done => simpa using remove_spec other cleanup d
  | fails part => simp
  | dies part => simp

end

theorem syncDir_spec (f : Fates) (d : Dir) :
    let r := (do
      settle f.openDir ()
      match ← (settle f.syncDir ()).attempt with
      | .error err => do
        let _ ← (settle f.closeDir ()).attempt
        Prog.throw err
      | .ok _ => settle f.closeDir () : Prog Unit Dir Unit) d
    r.2 = d ∧ (r.1 = .ok () ↔ f.openDir = .done ∧ f.syncDir = .done ∧ f.closeDir = .done) := by
  simp only [Prog.bind_apply, settle_apply]
  cases f.openDir with
  | fails part => simp
  | dies part => simp
  | done =>
    simp only [settle_attempt]
    cases f.syncDir with
    | dies part => simp
    | fails part =>
      simp only [Prog.bind_apply, settle_attempt]
      cases f.closeDir <;> simp [Prog.throw]
    | done =>
      simp only [settle_apply]
      cases f.closeDir <;> simp

theorem atomicWrite_spec (f : Fates) (path data : Bytes) (d : Dir) :
    (atomicWrite f path data d).2.lookup path =
        (if f.landed then some data else d.lookup path) ∧
      ((atomicWrite f path data d).1 = .ok () ↔ f.complete = true ∨ f.swallowed = true) := by
  have other := (tmpName_ne path).symm
  have kept (text : Bytes) (d : Dir) : (d.insert (tmpName path) text).lookup path = d.lookup path :=
    AList.lookup_insert_ne other
  unfold atomicWrite
  rw [Prog.bind_apply]
  cases creates : f.create with
  | fails part => simp [create, atomically, Fates.landed, Fates.complete, Fates.swallowed, creates]
  | dies part =>
    simp only [create, atomically, Fates.landed, Fates.complete, Fates.swallowed, creates]
    split <;> simp [kept]
  | done =>
    simp only [create, atomically]
    rw [Prog.bind_apply]
    cases writes : f.write with
    | dies part =>
      simp [write, Prog.attempt, Fates.landed, Fates.complete, Fates.swallowed, creates, writes,
        Fates.failed, kept]
    | fails part =>
      simp only [write, Prog.attempt]
      obtain ⟨file, ok⟩ := abandon_spec other f.close f.remove
        ((d.insert (tmpName path) []).insert (tmpName path) (data.take part))
      rw [file, ok]
      simp [Fates.landed, Fates.complete, Fates.swallowed, creates, writes, Fates.failed, kept,
        and_comm]
    | done =>
      simp only [write, Prog.attempt]
      rw [Prog.bind_apply, settle_attempt]
      cases syncs : f.sync with
      | dies part =>
        simp [Fates.landed, Fates.complete, Fates.swallowed, creates, writes, syncs, Fates.failed,
          kept]
      | fails part =>
        simp only
        obtain ⟨file, ok⟩ := abandon_spec other f.close f.remove
          ((d.insert (tmpName path) []).insert (tmpName path) data)
        rw [file, ok]
        simp [Fates.landed, Fates.complete, Fates.swallowed, creates, writes, syncs, Fates.failed,
          kept, and_comm]
      | done =>
        simp only
        rw [Prog.bind_apply, settle_attempt]
        cases closes : f.close with
        | dies part =>
          simp [Fates.landed, Fates.complete, Fates.swallowed, creates, writes, syncs, closes,
            Fates.failed, kept]
        | fails part =>
          simp only
          obtain ⟨file, ok⟩ := remove_spec other f.remove
            ((d.insert (tmpName path) []).insert (tmpName path) data)
          rw [file, ok]
          simp [Fates.landed, Fates.complete, Fates.swallowed, creates, writes, syncs, closes,
            Fates.failed, kept]
        | done =>
          simp only
          rw [Prog.bind_apply, rename_attempt]
          have moved : (move (tmpName path) path
              ((d.insert (tmpName path) []).insert (tmpName path) data)).lookup path = some data :=
            lookup_move (AList.lookup_insert _)
          cases renames : f.rename with
          | dies part =>
            by_cases none : part = 0
            · simp [Fates.landed, Fates.complete, Fates.swallowed, creates, writes, syncs, closes,
                renames, none, Fates.failed, kept]
            · simp only [if_neg none, moved]
              simp [Fates.landed, Fates.complete, Fates.swallowed, creates, writes, syncs, closes,
                renames, none, Fates.failed]
          | fails part =>
            simp only
            obtain ⟨file, ok⟩ := remove_spec other f.remove
              ((d.insert (tmpName path) []).insert (tmpName path) data)
            rw [file, ok]
            simp [Fates.landed, Fates.complete, Fates.swallowed, creates, writes, syncs, closes,
              renames, Fates.failed, kept]
          | done =>
            simp only
            obtain ⟨same, ok⟩ := syncDir_spec f
              (move (tmpName path) path ((d.insert (tmpName path) []).insert (tmpName path) data))
            rw [same, ok, moved]
            simp [Fates.landed, Fates.complete, Fates.swallowed, creates, writes, syncs, closes,
              renames, Fates.failed, and_assoc]

def isEnvelope (name : Bytes) : Bool := isShardEnvelope name || decide (name = auditEnvelope)

theorem isEnvelope_last {name : Bytes} (envelope : isEnvelope name = true) :
    name.getLast? = some 118 := by
  simp only [isEnvelope, isShardEnvelope, Bool.or_eq_true, Bool.and_eq_true,
    decide_eq_true_eq] at envelope
  rcases envelope with ⟨-, suffix⟩ | rfl
  · rw [← List.take_append_drop (name.length - 4) name, suffix, List.getLast?_append]
    rfl
  · rfl

theorem not_isEnvelope_append (name : Bytes) {ending : Bytes} {b : UInt8}
    (last : ending.getLast? = some b) (other : b ≠ 118) : isEnvelope (name ++ ending) = false := by
  cases envelope : isEnvelope (name ++ ending) with
  | false => rfl
  | true =>
    have ends := isEnvelope_last envelope
    rw [List.getLast?_append, last, Option.some_or, Option.some.injEq] at ends
    exact absurd ends other

theorem isEnvelope_tmpName (name : Bytes) : isEnvelope (tmpName name) = false :=
  not_isEnvelope_append name (b := 112) rfl (by decide)

theorem isEnvelope_bakName (name : Bytes) : isEnvelope (bakName name) = false :=
  not_isEnvelope_append name (b := 107) rfl (by decide)

theorem findEnvelopeFiles_perm (d : Dir) : (findEnvelopeFiles d).Perm
    (d.keys.filter isShardEnvelope ++
      if (d.lookup auditEnvelope).isSome then [auditEnvelope] else []) :=
  List.perm_insertionSort _ _

theorem mem_findEnvelopeFiles {d : Dir} {name : Bytes} :
    name ∈ findEnvelopeFiles d ↔ isEnvelope name = true ∧ (d.lookup name).isSome = true := by
  rw [(findEnvelopeFiles_perm d).mem_iff, List.mem_append, List.mem_filter, ← AList.mem_keys,
    ← AList.lookup_isSome, isEnvelope, Bool.or_eq_true, decide_eq_true_eq]
  by_cases audit : name = auditEnvelope
  · subst audit
    have shard : isShardEnvelope auditEnvelope = false := by decide
    cases (d.lookup auditEnvelope).isSome <;> simp [shard]
  · cases (d.lookup auditEnvelope).isSome <;> simp [audit, and_comm]

theorem findEnvelopeFiles_nodup (d : Dir) : (findEnvelopeFiles d).Nodup := by
  rw [(findEnvelopeFiles_perm d).nodup_iff]
  have shards : (d.keys.filter isShardEnvelope).Nodup := d.keys_nodup.filter _
  split
  · have shard : isShardEnvelope auditEnvelope = false := by decide
    rw [List.nodup_append]
    refine ⟨shards, List.nodup_singleton _, ?_⟩
    rintro name mem _ audit rfl
    rw [List.mem_singleton] at audit
    subst audit
    rw [List.mem_filter, shard] at mem
    cases mem.2
  · rwa [List.append_nil]

section
variable {env : Bytes → Fates} {oldFP newFP : Bytes} {d : Dir}

def Readable (env : Bytes → Fates) (d : Dir) (name : Bytes) : Prop :=
  (env name).read = .done ∧ ∃ raw, d.lookup name = some raw ∧ Envelope.WellFormed raw

def entryOf (oldFP newFP : Bytes) (d : Dir) (name : Bytes) : EnvelopeEntry :=
  let raw := (d.lookup name).getD []
  ⟨name, stampStatus oldFP newFP (Envelope.stamp raw), raw.drop (1 + envFingerprintLen)⟩

theorem classify_ok_iff {name raw : Bytes} {entry : EnvelopeEntry} :
    classify oldFP newFP name raw = .ok entry ↔ Envelope.WellFormed raw ∧
      entry = ⟨name, stampStatus oldFP newFP (Envelope.stamp raw), raw.drop (1 + envFingerprintLen)⟩ := by
  rw [Envelope.wellFormed_iff]
  by_cases format : raw.length < 1 + envFingerprintLen ∨ raw.headD 0 ≠ envVersion
  · simp only [classify, format, if_true, not_true_eq_false, false_and, reduceCtorEq]
  · rw [classify, if_neg format, Except.ok.injEq, eq_comm]
    exact (and_iff_right format).symm

theorem liftExcept_ok_iff {ε α σ : Type} {x : Except ε α} {value : α} {s : σ} :
    (liftExcept x s).1 = .ok value ↔ x = .ok value := by
  cases x <;> simp [liftExcept, Prog.throw, Prog.pure_apply]

theorem liftExcept_state {ε α σ : Type} (x : Except ε α) (s : σ) : (liftExcept x s).2 = s := by
  cases x <;> rfl

theorem readEntries_state (names : List Bytes) :
    (readEntries env oldFP newFP names d).2 = d := by
  induction names with
  | nil => rfl
  | cons name names ih =>
    apply Prog.bind_state (readFile_state _ _ _ _)
    intro raw read
    apply Prog.bind_state (liftExcept_state _ _)
    intro entry kind
    exact Prog.bind_state ih fun _ _ => rfl

theorem readEntries_ok_iff {names : List Bytes} {entries : List EnvelopeEntry} :
    (readEntries env oldFP newFP names d).1 = .ok entries ↔
      (∀ name ∈ names, Readable env d name) ∧ entries = names.map (entryOf oldFP newFP d) := by
  induction names generalizing entries with
  | nil => simp [readEntries, Prog.pure_apply, eq_comm]
  | cons name names ih =>
    simp only [readEntries, Prog.bind_ok_iff, readFile_ok_iff, readFile_state, liftExcept_ok_iff,
      liftExcept_state, readEntries_state, ih, Prog.pure_apply, Outcome.ok.injEq, classify_ok_iff,
      List.forall_mem_cons, List.map_cons]
    constructor
    · rintro ⟨raw, ⟨read, found⟩, entry, ⟨wellFormed, rfl⟩, others, ⟨rest, rfl⟩, rfl⟩
      refine ⟨⟨⟨read, raw, found, wellFormed⟩, rest⟩, ?_⟩
      simp [entryOf, found]
    · rintro ⟨⟨⟨read, raw, found, wellFormed⟩, rest⟩, rfl⟩
      refine ⟨raw, ⟨read, found⟩, _, ⟨wellFormed, rfl⟩, _, ⟨rest, rfl⟩, ?_⟩
      simp [entryOf, found]

end

end Tellstone
