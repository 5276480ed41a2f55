import Tellstone.Crypto.Rotation

/-! The data keys in envelope mode: drawn at the first start, and then loaded from the envelope
file, under whatever key encryption key the rotations have left it. -/
namespace Tellstone
open ByteStream FileOps

inductive StoreError where
  | createDirectory
  | openFile
  | writeFile
  | syncFile
  | closeFile
  | finalizeFile
  | openDirectory
  | syncDirectory
  | closeDirectory
  deriving DecidableEq, Repr

inductive LoadError where
  | notExist
  | unreadable
  | rejected (cause : EnvelopeError)
  deriving DecidableEq, Repr

namespace Envelope

def generateDEK (e : Envelope) (rnd : CipherKey) : Envelope :=
  if e.enabled then { e with dek := rnd } else e

def DEK (e : Envelope) : Bytes := if e.enabled then e.dek else e.kek

/-- The contents of the file of this envelope. -/
def wrapped (P : Primitives) (e : Envelope) (draw : Nat) : Bytes :=
  layout (fingerprintBytes P e.kek) (e.encrypt P draw)

def store (P : Primitives) (mkdir : Fate) (f : Fates) (e : Envelope) (draw : Nat) (name : Bytes) :
    Prog StoreError Dir Unit :=
  if e.enabled then do
    settle mkdir .createDirectory
    let tmp := tmpName name
    let abandon (err : StoreError) : Prog StoreError Dir Unit := do
      settle f.close err
      remove f.remove err tmp
    create f.create .openFile tmp
    (write f.write .writeFile tmp (e.wrapped P draw)).undoing abandon
    (settle f.sync .syncFile).undoing abandon
    (settle f.close .closeFile).undoing fun err => remove f.remove err tmp
    (rename f.rename .finalizeFile tmp name).undoing fun err => remove f.remove err tmp
    settle f.openDir .openDirectory
    (settle f.syncDir .syncDirectory).undoing fun _ => settle f.closeDir .closeDirectory
    settle f.closeDir .closeDirectory
  else pure ()

def loadFile (P : Primitives) (read : Fate) (e : Envelope) (name : Bytes) :
    Prog LoadError Dir Bytes := fun d =>
  if e.enabled then
    match read with
    | .dies _ => (.died, d)
    | .fails _ => (.error .unreadable, d)
    | .done =>
      match d.lookup name with
      | none => (.error .notExist, d)
      | some raw =>
        match e.load P raw with
        | .error err => (.error (.rejected err), d)
        | .ok dek => (.ok dek, d)
  else (.ok [], d)

end Envelope

inductive DataKeyError where
  | envelopeInit (cause : Error)
  | loadEnvelope (cause : LoadError)
  | generateDEK
  | storeEnvelope (cause : StoreError)
  | dataEngineInit (cause : Error)
  deriving DecidableEq, Repr

/-- What a start meets: the fates of its file operations, its nonce, and the key that it would
draw if crypto/rand gives one. -/
structure Drawing where
  mkdir : Fate
  files : Fates
  draw : Nat
  rnd : Option CipherKey

def dataEngine (dek : Bytes) : Prog DataKeyError Dir CryptoEngine :=
  liftExcept ((CryptoEngine.new dek).mapError .dataEngineInit)

/-- The engine over a data key. Only a missing file makes a start draw a key. -/
def openDataKey (P : Primitives) (s : Drawing) (key name : Bytes) :
    Prog DataKeyError Dir CryptoEngine := fun d =>
  match Envelope.new key with
  | .error err => (.error (.envelopeInit err), d)
  | .ok env =>
    match env.loadFile P s.files.read name d with
    | (.died, d) => (.died, d)
    | (.ok dek, d) => dataEngine dek d
    | (.error .notExist, d) =>
      match s.rnd with
      | none => (.error .generateDEK, d)
      | some rnd =>
        let env := env.generateDEK rnd
        (do
          (env.store P s.mkdir s.files s.draw name).mapError .storeEnvelope
          dataEngine env.DEK : Prog DataKeyError Dir CryptoEngine) d
    | (.error err, d) => (.error (.loadEnvelope err), d)

def envelopeFileName (shardID : Nat) : Bytes :=
  ascii "shard-" ++ ascii (toString shardID) ++ ascii ".env"

/-- Whose data key it is: that of a shard, or that of the audit log. -/
inductive KeyOwner where
  | shard (id : Nat)
  | audit
  deriving DecidableEq, Repr

def KeyOwner.file : KeyOwner → Bytes
  | shard id => envelopeFileName id
  | audit => auditEnvelope

theorem KeyOwner.isEnvelope_file (o : KeyOwner) : isEnvelope o.file = true := by
  cases o with
  | audit => rfl
  | shard id =>
    have start : (ascii "shard-").length = 6 := rfl
    have ending : (ascii ".env").length = 4 := rfl
    have size : (envelopeFileName id).length = 10 + (ascii (toString id)).length := by
      simp only [envelopeFileName, List.length_append, start, ending]
      omega
    have first : (envelopeFileName id).take 6 = ascii "shard-" := by
      rw [envelopeFileName, List.append_assoc]
      exact List.take_left' start
    have last : (envelopeFileName id).drop ((envelopeFileName id).length - 4) = ascii ".env" := by
      rw [size, envelopeFileName]
      apply List.drop_left'
      simp only [List.length_append, start]
      omega
    have long : 10 ≤ (envelopeFileName id).length := by omega
    simp only [isEnvelope, isShardEnvelope, file, first, last, long, decide_true, Bool.and_self,
      Bool.true_or]

section
variable {P : Primitives} {d : Dir}

/-- A rotation writes a file in the same steps, and leaves the same files behind. Unlike there,
success means that the file is in its place. -/
theorem store_atomicWrite (f : Fates) {e : Envelope} (on : e.enabled = true) (draw : Nat)
    (name : Bytes) :
    (e.store P .done f draw name d).2 = (atomicWrite f name (e.wrapped P draw) d).2 ∧
      ((e.store P .done f draw name d).1 = .ok () → f.landed = true) := by
  rw [Envelope.store, if_pos on]
  rcases f with ⟨_, _, _, create, write, sync, close, rename, cleanup, openDir, syncDir, closeDir⟩
  cases create with
  | fails part => exact ⟨rfl, nofun⟩
  | dies part => exact ⟨rfl, nofun⟩
  | done =>
    cases write with
    | dies part => exact ⟨rfl, nofun⟩
    | fails part => cases close <;> cases cleanup <;> exact ⟨rfl, nofun⟩
    | done =>
      cases sync with
      | dies part => exact ⟨rfl, nofun⟩
      | fails part => cases close <;> cases cleanup <;> exact ⟨rfl, nofun⟩
      | done =>
        cases close with
        | dies part => exact ⟨rfl, nofun⟩
        | fails part => cases cleanup <;> exact ⟨rfl, nofun⟩
        | done =>
          cases rename with
          | dies part => exact ⟨rfl, nofun⟩
          | fails part => cases cleanup <;> exact ⟨rfl, nofun⟩
          | done =>
            refine ⟨?_, fun _ => rfl⟩
            cases openDir <;> cases syncDir <;> cases closeDir <;> rfl

theorem store_spec (mkdir : Fate) (f : Fates) {e : Envelope} (on : e.enabled = true) (draw : Nat)
    (name : Bytes) :
    (∀ other, isEnvelope other = true → other ≠ name →
      (e.store P mkdir f draw name d).2.lookup other = d.lookup other) ∧
    ((e.store P mkdir f draw name d).1 = .ok () →
      (e.store P mkdir f draw name d).2.lookup name = some (e.wrapped P draw)) := by
  cases mkdir with
  | done =>
    obtain ⟨state, landed⟩ := @store_atomicWrite P d f e on draw name
    rw [state]
    refine ⟨fun other envelope ne => ?_, fun ok => ?_⟩
    · exact atomicWrite_touches f name _ d other fun only => ne (only envelope)
    · rw [(atomicWrite_spec f name _ d).1, if_pos (landed ok)]
  | fails part =>
    rw [Envelope.store, if_pos on]
    exact ⟨fun _ _ _ => rfl, nofun⟩
  | dies part =>
    have same : (settle (.dies part) StoreError.createDirectory d).2 = d := by rw [settle_apply]
    rw [Envelope.store, if_pos on]
    exact ⟨fun other _ _ => congrArg (AList.lookup other) same, nofun⟩

/-- What a start leaves: the envelopes that were there, and if it succeeded one that holds the key
of its engine. -/
structure Opened (P : Primitives) (kek : CipherKey) (o : KeyOwner) (d : Dir)
    (r : Outcome DataKeyError CryptoEngine × Dir) : Prop where
  kept : ∀ name raw, isEnvelope name = true → d.lookup name = some raw →
    r.2.lookup name = some raw
  holds : ∀ crypto, r.1 = .ok crypto → ∃ raw dek, r.2.lookup o.file = some raw ∧
    (Envelope.ofKey kek).load P raw = .ok dek ∧ CryptoEngine.new dek = .ok crypto

theorem dataEngine_spec {dek : Bytes} :
    (∀ crypto, (dataEngine dek d).1 = .ok crypto → CryptoEngine.new dek = .ok crypto) ∧
      (dataEngine dek d).2 = d := by
  refine ⟨fun crypto ok => ?_, liftExcept_state _ _⟩
  have made := liftExcept_ok_iff.mp ok
  cases new : CryptoEngine.new dek with
  | error err => simp [new, Except.mapError] at made
  | ok engine => simpa [new, Except.mapError] using made

theorem openDataKey_opened (law : P.Lawful) (s : Drawing) (kek : CipherKey) (o : KeyOwner)
    (d : Dir) : Opened P kek o d (openDataKey P s kek.1 o.file d) := by
  have same {outcome : Outcome DataKeyError CryptoEngine}
      (refused : ∀ crypto, outcome ≠ .ok crypto) : Opened P kek o d (outcome, d) :=
    ⟨fun _ _ _ found => found, fun crypto ok => absurd ok (refused crypto)⟩
  have on : (Envelope.ofKey kek).enabled = true := rfl
  simp only [openDataKey, Envelope.new_ofKey, Envelope.loadFile, if_pos on]
  cases s.files.read with
  | dies part => exact same nofun
  | fails part => exact same nofun
  | done =>
    cases found : d.lookup o.file with
    | some raw =>
      cases loads : (Envelope.ofKey kek).load P raw with
      | error err =>
        simp only [loads]
        exact same nofun
      | ok dek =>
        simp only [loads]
        obtain ⟨made, state⟩ := @dataEngine_spec d dek
        constructor
        · intro name raw _ found
          rwa [state]
        · intro crypto ok
          rw [state]
          exact ⟨raw, dek, found, loads, made crypto ok⟩
    | none =>
      simp only
      cases s.rnd with
      | none => exact same nofun
      | some rnd =>
        have on : ((Envelope.ofKey kek).generateDEK rnd).enabled = true := rfl
        obtain ⟨others, stored⟩ := @store_spec P d s.mkdir s.files _ on s.draw o.file
        have state := Prog.bind_state (Prog.mapError_state DataKeyError.storeEnvelope
          (Envelope.store P s.mkdir s.files ((Envelope.ofKey kek).generateDEK rnd) s.draw o.file) d)
          fun _ _ => (@dataEngine_spec _ rnd).2
        constructor
        · intro name raw envelope there
          refine (congrArg (AList.lookup name) state).trans ((others name envelope ?_).trans there)
          rintro rfl
          cases found.symm.trans there
        · intro crypto ok
          obtain ⟨_, ran, made⟩ := Prog.bind_ok_iff.mp ok
          exact ⟨_, rnd, (congrArg (AList.lookup o.file) state).trans
            (stored (Prog.mapError_ok_iff.mp ran)), Envelope.load_layout law kek s.draw rnd,
            dataEngine_spec.1 crypto made⟩

end

inductive KeyEvent where
  | start (o : KeyOwner) (s : Drawing) (kek : CipherKey)
  | rotate (attempt : Attempt) (old new : CipherKey)

namespace KeyEvent

def keks : KeyEvent → List CipherKey
  | start _ _ kek => [kek]
  | rotate _ old new => [old, new]

/-- What the event makes of the files, and the engine of a start that succeeds. -/
def step (P : Primitives) (d : Dir) : KeyEvent → Option (KeyOwner × CryptoEngine) × Dir
  | start o s kek =>
    match openDataKey P s kek.1 o.file d with
    | (.ok crypto, d) => (some (o, crypto), d)
    | (_, d) => (none, d)
  | rotate a old new => (none, (rewrapEnvelopes P a.env a.draw old.1 new.1 a.retainOld d).2)

def run (P : Primitives) : Dir → List KeyEvent → List (KeyOwner × CryptoEngine) × Dir
  | d, [] => ([], d)
  | d, event :: events =>
    let (started, d) := event.step P d
    let (later, d) := run P d events
    (started.toList ++ later, d)

end KeyEvent

/-- The file of `o` gives `dek` under one of the keys. -/
def Held (P : Primitives) (keks : List CipherKey) (d : Dir) (o : KeyOwner) (dek : Bytes) : Prop :=
  ∃ kek ∈ keks, ∃ raw, d.lookup o.file = some raw ∧ (Envelope.ofKey kek).load P raw = .ok dek

/-- The fingerprint tells the keys apart. -/
def Apart (P : Primitives) (keks : List CipherKey) : Prop :=
  ∀ a ∈ keks, ∀ b ∈ keks, fingerprintBytes P a = fingerprintBytes P b → a = b

section
variable {P : Primitives} {keks : List CipherKey} {d : Dir} {o : KeyOwner} {dek : Bytes}

theorem Held.unique (apart : Apart P keks) {dek' : Bytes} (held : Held P keks d o dek)
    (held' : Held P keks d o dek') : dek = dek' := by
  obtain ⟨kek, mem, raw, found, loads⟩ := held
  obtain ⟨kek', mem', raw', found', loads'⟩ := held'
  cases found.symm.trans found'
  have named := (Envelope.load_ok_iff.mp loads).2.1
  have named' := (Envelope.load_ok_iff.mp loads').2.1
  obtain rfl := apart kek mem kek' mem' (named.symm.trans named')
  exact Except.ok.inj (loads.symm.trans loads')

/-- A file that the rotation writes was under the old key, so its data key is the one that was
read. -/
theorem Held.rotate (law : P.Lawful) (apart : Apart P keks) (held : Held P keks d o dek)
    {env : Bytes → Fates} {old new : CipherKey} {retainOld : Bool}
    {r : Outcome RewrapError RewrapResult × Dir} (used : old ∈ keks) (next : new ∈ keks)
    (ran : Rewrapped P env old new retainOld d r) : Held P keks r.2 o dek := by
  obtain ⟨kek, mem, raw, found, loads⟩ := held
  cases ran with
  | failed refused => exact ⟨kek, mem, raw, found, loads⟩
  | skipped read none done => exact ⟨kek, mem, raw, found, loads⟩
  | @wrote outcome toWrite written read known prepared all ends =>
    by_cases listed : o.file ∈ toWrite.map Prod.fst
    · obtain ⟨there, stale⟩ := (mem_toWrite prepared).mp listed
      obtain ⟨write, member, same⟩ := List.mem_map.mp listed
      rw [← same] at found there stale
      rcases all.files write member with kept | replaced
      · exact ⟨kek, mem, raw, by rw [← same, kept, found], loads⟩
      · have recognized := known write.1 there
        rw [fileStatus_of_lookup found] at stale recognized
        have under : Envelope.stamp raw = fingerprintBytes P old := by
          by_contra other
          rw [stampStatus, if_neg other] at stale recognized
          split at stale <;> simp_all
        obtain rfl := apart kek mem old used ((Envelope.load_ok_iff.mp loads).2.1.symm.trans under)
        have rewrapped := (prepared_of_mem prepared member).loads law found loads
        exact ⟨new, next, write.2, by rw [← same, replaced], rewrapped⟩
    · exact ⟨kek, mem, raw, (all.others o.file o.isEnvelope_file listed).trans found, loads⟩

theorem Held.step (law : P.Lawful) (apart : Apart P keks) (held : Held P keks d o dek)
    {event : KeyEvent} (used : event.keks ⊆ keks) : Held P keks (event.step P d).2 o dek := by
  cases event with
  | start o' s kek =>
    obtain ⟨kek', mem, raw, found, loads⟩ := held
    have kept := (openDataKey_opened law s kek o' d).kept o.file raw o.isEnvelope_file found
    refine ⟨kek', mem, raw, ?_, loads⟩
    rw [KeyEvent.step]
    rcases ran : openDataKey P s kek.1 o'.file d with ⟨crypto | err | _, d'⟩ <;> rwa [ran] at kept
  | rotate a old new =>
    exact held.rotate law apart (used List.mem_cons_self) (used (by simp [KeyEvent.keks]))
      (rewrapEnvelopes_rewrapped P a.env a.draw old new a.retainOld d)

theorem Held.run (law : P.Lawful) (apart : Apart P keks) (held : Held P keks d o dek)
    {events : List KeyEvent} (used : ∀ event ∈ events, event.keks ⊆ keks) :
    Held P keks (KeyEvent.run P d events).2 o dek := by
  induction events generalizing d with
  | nil => exact held
  | cons event events ih =>
    rw [List.forall_mem_cons] at used
    exact ih (held.step law apart used.1) used.2

theorem step_held (law : P.Lawful) {event : KeyEvent} (used : event.keks ⊆ keks)
    {crypto : CryptoEngine} (started : (event.step P d).1 = some (o, crypto)) :
    ∃ dek, Held P keks (event.step P d).2 o dek ∧ CryptoEngine.new dek = .ok crypto := by
  cases event with
  | rotate a old new => cases started
  | start o' s kek =>
    have opened := (openDataKey_opened law s kek o' d).holds
    rw [KeyEvent.step] at started ⊢
    rcases ran : openDataKey P s kek.1 o'.file d with ⟨engine | err | _, d'⟩
    · rw [ran] at started opened
      cases started
      obtain ⟨raw, dek, found, loads, made⟩ := opened crypto rfl
      exact ⟨dek, ⟨kek, used List.mem_cons_self, raw, found, loads⟩, made⟩
    · rw [ran] at started
      cases started
    · rw [ran] at started
      cases started

theorem run_held (law : P.Lawful) (apart : Apart P keks) {events : List KeyEvent}
    (used : ∀ event ∈ events, event.keks ⊆ keks) {crypto : CryptoEngine}
    (started : (o, crypto) ∈ (KeyEvent.run P d events).1) :
    ∃ dek, Held P keks (KeyEvent.run P d events).2 o dek ∧ CryptoEngine.new dek = .ok crypto := by
  induction events generalizing d with
  | nil => cases started
  | cons event events ih =>
    rw [List.forall_mem_cons] at used
    rcases List.mem_append.mp started with now | later
    · obtain ⟨dek, held, made⟩ := step_held law used.1 (Option.mem_toList.mp now)
      exact ⟨dek, held.run law apart used.2, made⟩
    · exact ih used.2 later

theorem started_held (law : P.Lawful) {events : List KeyEvent}
    (apart : Apart P (events.flatMap KeyEvent.keks)) {crypto : CryptoEngine}
    (started : (o, crypto) ∈ (KeyEvent.run P d events).1) :
    ∃ dek, Held P (events.flatMap KeyEvent.keks) (KeyEvent.run P d events).2 o dek ∧
      CryptoEngine.new dek = .ok crypto :=
  run_held law apart (fun event mem _ key => List.mem_flatMap.mpr ⟨event, mem, key⟩) started

end

/-- Whatever starts and rotations a directory sees, each broken off anywhere or failing, a start
that succeeds finds the data key of every earlier one: the envelope file still gives it. -/
theorem data_key_kept {P : Primitives} (law : P.Lawful) (d : Dir) (events : List KeyEvent)
    (apart : Apart P (events.flatMap KeyEvent.keks)) (o : KeyOwner) (crypto : CryptoEngine)
    (started : (o, crypto) ∈ (KeyEvent.run P d events).1) :
    (∃ dek, Held P (events.flatMap KeyEvent.keks) (KeyEvent.run P d events).2 o dek ∧
      CryptoEngine.new dek = .ok crypto) ∧
    ∀ crypto', (o, crypto') ∈ (KeyEvent.run P d events).1 → crypto' = crypto := by
  obtain ⟨dek, held, made⟩ := started_held law apart started
  refine ⟨⟨dek, held, made⟩, fun crypto' again => ?_⟩
  obtain ⟨dek', held', made'⟩ := started_held law apart again
  rw [held'.unique apart held] at made'
  exact Except.ok.inj (made'.symm.trans made)

def healthyStart (rnd : CipherKey) : Drawing := ⟨.done, .healthy, 0, some rnd⟩

/-- A start, a rotation that dies before its only rename, one that ends, and a start under the
new key that would have drawn another data key. -/
def rotatedOnce (o : KeyOwner) : List KeyEvent :=
  [.start o (healthyStart (sampleKey 7)) (sampleKey 1),
    .rotate betweenFiles (sampleKey 1) (sampleKey 2),
    .rotate ⟨fun _ => .healthy, 4, true⟩ (sampleKey 1) (sampleKey 2),
    .start o (healthyStart (sampleKey 8)) (sampleKey 2)]

theorem rotatedOnce_apart (o : KeyOwner) :
    Apart .tagged ((rotatedOnce o).flatMap KeyEvent.keks) := by
  have same : (rotatedOnce o).flatMap KeyEvent.keks =
      (rotatedOnce .audit).flatMap KeyEvent.keks := rfl
  rw [same]
  unfold Apart
  decide +kernel

theorem data_key_kept_rotated :
    ∃ dek, Held .tagged ((rotatedOnce (.shard 0)).flatMap KeyEvent.keks)
      (KeyEvent.run .tagged ∅ (rotatedOnce (.shard 0))).2 (.shard 0) dek ∧
      CryptoEngine.new dek = .ok (.chacha (sampleKey 7)) :=
  (data_key_kept Primitives.tagged_lawful ∅ (rotatedOnce (.shard 0)) (rotatedOnce_apart _)
    (.shard 0) (.chacha (sampleKey 7)) (by decide +kernel)).1

end Tellstone
