import Tellstone.Lib.FileOps

/-! Files on a device that keeps what was synced. After a crash other bytes may be anything, and a
name stands for some file it has stood for since the directory was last synced. -/
namespace Durability
open ByteStream FileOps

section
variable {ε σ α β : Type}

/-- However the program ends, `inv` holds then; when it returns, so does `post`. -/
def Guards (inv pre : σ → Prop) (m : Prog ε σ α) (post : α → σ → Prop) : Prop :=
  ∀ s, pre s → inv (m s).2 ∧ ∀ value, (m s).1 = .ok value → post value (m s).2

def perform (fate : Fate) (err : ε) (effect : σ → α × σ) : Prog ε σ α := fun s =>
  match fate with
  | .done => (.ok (effect s).1, (effect s).2)
  | .fails _ => (.error err, s)
  | .dies part => (.died, if part = 0 then s else (effect s).2)

def ignore (m : Prog ε σ α) : Prog ε σ Unit := do
  let _ ← m.attempt
  pure ()

def onError (m : Prog ε σ α) (cleanup : Prog ε σ Unit) : Prog ε σ α := do
  match ← m.attempt with
  | .ok value => pure value
  | .error err => do
    cleanup
    Prog.throw err

namespace Guards

variable {inv pre : σ → Prop} {m : Prog ε σ α} {post : α → σ → Prop}

theorem conseq (guards : Guards inv pre m post) {pre' : σ → Prop} {post' : α → σ → Prop}
    (before : ∀ s, pre' s → pre s) (after : ∀ value s, post value s → post' value s) :
    Guards inv pre' m post' := by
  intro s start
  obtain ⟨kept, returned⟩ := guards s (before s start)
  exact ⟨kept, fun value ok => after value _ (returned value ok)⟩

theorem pure (value : α) (holds : ∀ s, pre s → inv s) :
    Guards inv pre (Pure.pure value : Prog ε σ α) fun result s => pre s ∧ result = value := by
  intro s start
  refine ⟨holds s start, ?_⟩
  intro result returned
  cases returned
  exact ⟨start, rfl⟩

theorem throw (err : ε) (holds : ∀ s, pre s → inv s) :
    Guards inv pre (Prog.throw err : Prog ε σ α) post := by
  intro s start
  refine ⟨holds s start, ?_⟩
  intro result returned
  cases returned

theorem lift {fact : Prop} (guards : fact → Guards inv pre m post) :
    Guards inv (fun s => fact ∧ pre s) m post :=
  fun s start => guards start.1 s start.2

theorem mapError {ε' : Type} (f : ε → ε') (guards : Guards inv pre m post) :
    Guards inv pre (m.mapError f) post := by
  intro s start
  obtain ⟨kept, returned⟩ := guards s start
  rw [Prog.mapError_state]
  exact ⟨kept, fun value ok => returned value (Prog.mapError_ok_iff.mp ok)⟩

theorem bind {next : α → Prog ε σ β} {result : β → σ → Prop} (first : Guards inv pre m post)
    (rest : ∀ value, Guards inv (post value) (next value) result) :
    Guards inv pre (m >>= next) result := by
  intro s start
  obtain ⟨kept, returned⟩ := first s start
  rw [Prog.bind_apply]
  generalize m s = ran at kept returned ⊢
  rcases ran with ⟨value | err | _, t⟩
  · exact rest value t (returned value rfl)
  · exact ⟨kept, fun _ no => by cases no⟩
  · exact ⟨kept, fun _ no => by cases no⟩

theorem ignore (guards : Guards inv pre m post) :
    Guards inv pre (ignore m) fun _ => inv := by
  intro s start
  obtain ⟨kept, -⟩ := guards s start
  rw [Durability.ignore, Prog.bind_apply, Prog.attempt]
  generalize m s = ran at kept ⊢
  rcases ran with ⟨value | err | _, t⟩
  · exact ⟨kept, fun _ _ => kept⟩
  · exact ⟨kept, fun _ _ => kept⟩
  · exact ⟨kept, fun _ no => by cases no⟩

theorem onError {cleanup : Prog ε σ Unit} {done : Unit → σ → Prop} (guards : Guards inv pre m post)
    (cleans : Guards inv inv cleanup done) : Guards inv pre (onError m cleanup) post := by
  intro s start
  obtain ⟨kept, returned⟩ := guards s start
  rw [Durability.onError, Prog.bind_apply, Prog.attempt]
  generalize m s = ran at kept returned ⊢
  rcases ran with ⟨value | err | _, t⟩
  · refine ⟨kept, fun result same => ?_⟩
    cases same
    exact returned value rfl
  · refine ⟨?_, fun result no => ?_⟩
    · change inv ((cleanup >>= fun _ => Prog.throw err : Prog ε σ α) t).2
      rw [Prog.bind_apply]
      have cleaned := (cleans t kept).1
      generalize cleanup t = ended at cleaned ⊢
      rcases ended with ⟨value | err | _, u⟩ <;> exact cleaned
    · change ((cleanup >>= fun _ => Prog.throw err : Prog ε σ α) t).1 = .ok result at no
      rw [Prog.bind_ok_iff] at no
      obtain ⟨-, -, no⟩ := no
      cases no
  · exact ⟨kept, fun _ no => by cases no⟩

theorem perform (fate : Fate) (err : ε) {effect : σ → α × σ} (before : ∀ s, pre s → inv s)
    (done : ∀ s, pre s → inv (effect s).2 ∧ post (effect s).1 (effect s).2) :
    Guards inv pre (perform fate err effect) post := by
  intro s start
  cases fate with
  | done =>
    refine ⟨(done s start).1, ?_⟩
    intro value same
    cases same
    exact (done s start).2
  | fails part => exact ⟨before s start, fun _ no => by cases no⟩
  | dies part =>
    refine ⟨?_, fun _ no => by cases no⟩
    simp only [Durability.perform]
    split
    · exact before s start
    · exact (done s start).1

end Guards

end

/-- The bytes of a file, and whether they are on the device. -/
structure File where
  bytes : Bytes
  synced : Bool
  deriving DecidableEq, Repr

/-- No two names stand for one file. `past` is what a name stood for since the last sync of the
directory. -/
structure Volume (ν : Type) where
  files : List File
  names : ν → Option Nat
  past : ν → List (Option Nat)
  bound : ∀ name i, names name = some i → i < files.length
  single : ∀ a b i, names a = some i → names b = some i → a = b

namespace Volume

variable {ν : Type}

def stands (v : Volume ν) (name : ν) : List (Option Nat) := v.names name :: v.past name

def Finds (v : Volume ν) (name : ν) : Option Bytes → Prop
  | none => none ∈ v.stands name
  | some bytes => ∃ i file, some i ∈ v.stands name ∧ v.files[i]? = some file ∧
      (file.synced = true → bytes = file.bytes)

def edit (i : Nat) (f : File → File) (v : Volume ν) : Volume ν where
  files := v.files.modify i f
  names := v.names
  past := v.past
  bound name j here := by
    rw [List.length_modify]
    exact v.bound name j here
  single := v.single

def grow (v : Volume ν) : Volume ν where
  files := v.files ++ [⟨[], false⟩]
  names := v.names
  past := v.past
  bound name i here := by
    rw [List.length_append]
    exact Nat.lt_add_right _ (v.bound name i here)
  single := v.single

def settle (v : Volume ν) : Volume ν := { v with past := fun _ => [] }

/-- Whatever a crash brings back, the name alone stands for a file that is good and on the device.
-/
structure Safe (v : Volume ν) (name : ν) (good : Bytes → Prop) : Prop where
  whole : ∀ target ∈ v.stands name, ∃ i file, target = some i ∧ v.files[i]? = some file ∧
    file.synced = true ∧ good file.bytes
  apart : ∀ other i, other ≠ name → v.names other = some i → some i ∉ v.past name

/-- A file under another name, in the state `is`, beside a safe one. -/
structure Draft (v : Volume ν) (name : ν) (good : Bytes → Prop) (other : ν) (i : Nat)
    (is : File → Prop) : Prop where
  safe : v.Safe name good
  here : v.names other = some i
  file : ∃ file, v.files[i]? = some file ∧ is file

section
variable {v : Volume ν} {name other : ν} {good : Bytes → Prop}

namespace Safe

theorem found (safe : v.Safe name good) {content : Option Bytes} (finds : v.Finds name content) :
    ∃ bytes, content = some bytes ∧ good bytes := by
  cases content with
  | none =>
    obtain ⟨i, file, no, -⟩ := safe.whole none finds
    cases no
  | some bytes =>
    obtain ⟨i, file, stands, stored, kept⟩ := finds
    obtain ⟨j, file', same, stored', synced, fine⟩ := safe.whole (some i) stands
    cases same
    rw [stored] at stored'
    cases stored'
    rw [kept synced]
    exact ⟨file.bytes, rfl, fine⟩

theorem outside (safe : v.Safe name good) (differ : other ≠ name) {i : Nat}
    (here : v.names other = some i) : some i ∉ v.stands name := by
  intro mem
  rcases List.mem_cons.mp mem with same | old
  · exact differ (v.single other name i here same.symm)
  · exact safe.apart other i differ here old

theorem edit (safe : v.Safe name good) {i : Nat} (out : some i ∉ v.stands name)
    (f : File → File) : (v.edit i f).Safe name good := by
  refine ⟨?_, safe.apart⟩
  intro target mem
  obtain ⟨j, file, rfl, stored, fine⟩ := safe.whole target mem
  refine ⟨j, file, rfl, ?_, fine⟩
  have differ : i ≠ j := by
    rintro rfl
    exact out mem
  simp [Volume.edit, differ, stored]

theorem grow (safe : v.Safe name good) : v.grow.Safe name good := by
  refine ⟨?_, safe.apart⟩
  intro target mem
  obtain ⟨i, file, same, stored, fine⟩ := safe.whole target mem
  refine ⟨i, file, same, ?_, fine⟩
  exact (List.getElem?_append_left (List.getElem?_eq_some_iff.mp stored).1).trans stored

theorem settle (safe : v.Safe name good) : v.settle.Safe name good := by
  constructor
  · intro target mem
    apply safe.whole target
    rw [List.mem_singleton.mp mem]
    exact List.mem_cons_self
  · intro other i differ here mem
    cases mem

end Safe

end

def Free (v : Volume ν) (name : ν) (target : Option Nat) : Prop :=
  ∀ i, target = some i → i < v.files.length ∧ ∀ other, v.names other = some i → other = name

theorem free_none (v : Volume ν) (name : ν) : v.Free name none := by
  intro i no
  cases no

theorem free_grow (v : Volume ν) (name : ν) : v.grow.Free name (some v.files.length) := by
  intro i same
  cases same
  refine ⟨by simp [grow], ?_⟩
  intro other here
  exact absurd (v.bound other _ here) (Nat.lt_irrefl _)

variable [DecidableEq ν]

def point (v : Volume ν) (name : ν) (target : Option Nat) (free : v.Free name target) :
    Volume ν where
  files := v.files
  names := Function.update v.names name target
  past := Function.update v.past name (v.stands name)
  bound := by
    intro other i here
    by_cases same : other = name
    · rw [same, Function.update_self] at here
      exact (free i here).1
    · rw [Function.update_of_ne same] at here
      exact v.bound other i here
  single := by
    intro a b i left right
    by_cases first : a = name
    · rw [first, Function.update_self] at left
      by_cases second : b = name
      · exact first.trans second.symm
      · rw [Function.update_of_ne second] at right
        exact first.trans ((free i left).2 b right).symm
    · rw [Function.update_of_ne first] at left
      by_cases second : b = name
      · rw [second, Function.update_self] at right
        exact ((free i right).2 a left).trans second.symm
      · rw [Function.update_of_ne second] at right
        exact v.single a b i left right

def unlink (v : Volume ν) (name : ν) : Volume ν := v.point name none (v.free_none name)

def opened (v : Volume ν) (name : ν) : Nat × Volume ν :=
  match v.names name with
  | some i => (i, v)
  | none => (v.files.length, v.grow.point name (some v.files.length) (v.free_grow name))

theorem opened_names (v : Volume ν) (name : ν) :
    (v.opened name).2.names name = some (v.opened name).1 := by
  unfold opened
  split
  · assumption
  · exact Function.update_self _ _ _

theorem free_move (v : Volume ν) {src : ν} (dst : ν) {i : Nat} (here : v.names src = some i) :
    (v.unlink src).Free dst (some i) := by
  intro j same
  cases same
  refine ⟨v.bound src i here, ?_⟩
  intro other found
  simp only [unlink, point] at found
  by_cases gone : other = src
  · rw [gone, Function.update_self] at found
    cases found
  · rw [Function.update_of_ne gone] at found
    exact absurd (v.single other src i found here) gone

def move (v : Volume ν) (src dst : ν) (i : Nat) (here : v.names src = some i) : Volume ν :=
  (v.unlink src).point dst (some i) (v.free_move dst here)

namespace Safe

variable {v : Volume ν} {name other : ν} {good : Bytes → Prop}

theorem point (safe : v.Safe name good) {i : Nat} {file : File} (free : v.Free name (some i))
    (stored : v.files[i]? = some file) (synced : file.synced = true) (fine : good file.bytes) :
    (v.point name (some i) free).Safe name good := by
  constructor
  · intro target mem
    simp only [stands, Volume.point, Function.update_self] at mem
    rcases List.mem_cons.mp mem with rfl | old
    · exact ⟨i, file, rfl, stored, synced, fine⟩
    · exact safe.whole target old
  · intro other j differ here
    simp only [Volume.point, Function.update_of_ne differ, Function.update_self] at here ⊢
    exact safe.outside differ here

theorem point_other (safe : v.Safe name good) (differ : other ≠ name) {target : Option Nat}
    (free : v.Free other target) (out : ∀ i, target = some i → some i ∉ v.stands name) :
    (v.point other target free).Safe name good := by
  constructor
  · intro standing mem
    apply safe.whole standing
    simpa only [stands, Volume.point, Function.update_of_ne differ.symm] using mem
  · intro third i apart here
    simp only [Volume.point, Function.update_of_ne differ.symm] at here ⊢
    by_cases same : third = other
    · rw [same, Function.update_self] at here
      exact fun mem => out i here (List.mem_cons_of_mem _ mem)
    · rw [Function.update_of_ne same] at here
      exact safe.apart third i apart here

theorem unlink (safe : v.Safe name good) (differ : other ≠ name) :
    (v.unlink other).Safe name good :=
  safe.point_other differ (v.free_none other) (fun _ no => by cases no)

theorem opened (safe : v.Safe name good) (other : ν) : (v.opened other).2.Safe name good := by
  unfold Volume.opened
  split
  · exact safe
  · rename_i missing
    refine safe.grow.point_other ?_ (v.free_grow other) ?_
    · rintro rfl
      obtain ⟨i, file, same, -⟩ := safe.whole _ List.mem_cons_self
      rw [missing] at same
      cases same
    · intro i same mem
      cases same
      obtain ⟨j, file, same, stored, -⟩ := safe.whole _ mem
      cases same
      exact absurd (List.getElem?_eq_some_iff.mp stored).1 (Nat.lt_irrefl _)

theorem move (safe : v.Safe name good) (differ : other ≠ name) {i : Nat} {file : File}
    (here : v.names other = some i) (stored : v.files[i]? = some file)
    (synced : file.synced = true) (fine : good file.bytes) :
    (v.move other name i here).Safe name good :=
  (safe.unlink differ).point (v.free_move name here) stored synced fine

theorem move_other (safe : v.Safe name good) {src dst : ν} (source : src ≠ name)
    (target : dst ≠ name) {i : Nat} (here : v.names src = some i) :
    (v.move src dst i here).Safe name good := by
  refine (safe.unlink source).point_other target (v.free_move dst here) ?_
  intro j same
  cases same
  simpa only [stands, Volume.unlink, Volume.point, Function.update_of_ne source.symm] using
    safe.outside source here

end Safe

end Volume

section
variable {ε ν : Type}

def File.append (data : Bytes) (f : File) : File := ⟨f.bytes ++ data, false⟩

def write (fate : Fate) (err : ε) (i : Nat) (data : Bytes) : Prog ε (Volume ν) Unit := fun v =>
  match fate with
  | .done => (.ok (), v.edit i (.append data))
  | .fails part => (.error err, v.edit i (.append (data.take part)))
  | .dies part => (.died, v.edit i (.append (data.take part)))

def sync (fate : Fate) (err : ε) (i : Nat) : Prog ε (Volume ν) Unit :=
  perform fate err fun v => ((), v.edit i fun f => ⟨f.bytes, true⟩)

def close (fate : Fate) (err : ε) : Prog ε (Volume ν) Unit := perform fate err fun v => ((), v)

def syncDir (fate : Fate) (err : ε) : Prog ε (Volume ν) Unit :=
  perform fate err fun v => ((), v.settle)

variable [DecidableEq ν]

def openFile (fate : Fate) (err : ε) (name : ν) : Prog ε (Volume ν) Nat :=
  perform fate err fun v => v.opened name

def create (fate : Fate) (err : ε) (name : ν) : Prog ε (Volume ν) Nat :=
  perform fate err fun v =>
    ((v.opened name).1, (v.opened name).2.edit (v.opened name).1 fun _ => ⟨[], false⟩)

def remove (fate : Fate) (err : ε) (name : ν) : Prog ε (Volume ν) Unit :=
  perform fate err fun v => ((), v.unlink name)

def rename (fate : Fate) (err : ε) (src dst : ν) : Prog ε (Volume ν) Unit := fun v =>
  match here : v.names src with
  | some i => perform fate err (fun _ => ((), v.move src dst i here)) v
  | none => (.error err, v)

end

section
variable {ε ν : Type} (fate : Fate) (err : ε) {name other : ν} {good : Bytes → Prop} {i : Nat}
  {is : File → Prop}

theorem Volume.Draft.edit {v : Volume ν} {is' : File → Prop} (draft : v.Draft name good other i is)
    (differ : other ≠ name) {f : File → File} (turns : ∀ file, is file → is' (f file)) :
    (v.edit i f).Draft name good other i is' := by
  refine ⟨draft.safe.edit (draft.safe.outside differ draft.here) f, draft.here, ?_⟩
  obtain ⟨file, stored, now⟩ := draft.file
  exact ⟨f file, by simp [Volume.edit, stored], turns file now⟩

theorem guards_write (differ : other ≠ name) {bytes : Bytes} (data : Bytes) :
    Guards (fun v => v.Safe name good)
      (fun v => v.Draft name good other i fun f => f.bytes = bytes) (write fate err i data)
      fun _ v => v.Draft name good other i fun f => f.bytes = bytes ++ data := by
  intro v draft
  have wrote (data : Bytes) : (v.edit i (.append data)).Draft name good other i
      fun f => f.bytes = bytes ++ data := by
    apply draft.edit differ
    intro file same
    rw [File.append, same]
  cases fate with
  | done => exact ⟨(wrote data).safe, fun _ _ => wrote data⟩
  | fails part => exact ⟨(wrote _).safe, fun _ no => by cases no⟩
  | dies part => exact ⟨(wrote _).safe, fun _ no => by cases no⟩

theorem guards_sync (differ : other ≠ name) {bytes : Bytes} :
    Guards (fun v => v.Safe name good)
      (fun v => v.Draft name good other i fun f => f.bytes = bytes) (sync fate err i)
      fun _ v => v.Draft name good other i fun f => f.bytes = bytes ∧ f.synced = true := by
  apply Guards.perform
  · intro v draft
    exact draft.safe
  · intro v draft
    have synced : (v.edit i fun f => ⟨f.bytes, true⟩).Draft name good other i
        fun f => f.bytes = bytes ∧ f.synced = true :=
      draft.edit differ fun file same => ⟨same, rfl⟩
    exact ⟨synced.safe, synced⟩

theorem guards_close {inv pre : Volume ν → Prop} (safe : ∀ v, pre v → inv v) :
    Guards inv pre (close fate err) fun _ => pre :=
  Guards.perform fate err safe fun v start => ⟨safe v start, start⟩

theorem guards_syncDir :
    Guards (fun v => v.Safe name good) (fun v => v.Safe name good) (syncDir fate err)
      fun _ v => v.Safe name good :=
  Guards.perform fate err (fun _ safe => safe) fun _ safe => ⟨safe.settle, safe.settle⟩

variable [DecidableEq ν]

theorem guards_openFile (other : ν) :
    Guards (fun v => v.Safe name good) (fun v => v.Safe name good) (openFile fate err other)
      fun _ v => v.Safe name good :=
  Guards.perform fate err (fun _ safe => safe)
    fun _ safe => ⟨safe.opened other, safe.opened other⟩

theorem guards_create (differ : other ≠ name) :
    Guards (fun v => v.Safe name good) (fun v => v.Safe name good) (create fate err other)
      fun i v => v.Draft name good other i fun f => f.bytes = [] := by
  apply Guards.perform
  · intro v safe
    exact safe
  · intro v safe
    have draft : (v.opened other).2.Draft name good other (v.opened other).1 fun _ => True := by
      refine ⟨safe.opened other, v.opened_names other, ?_⟩
      have inside := (v.opened other).2.bound other _ (v.opened_names other)
      exact ⟨_, List.getElem?_eq_getElem inside, trivial⟩
    have emptied : ((v.opened other).2.edit (v.opened other).1 fun _ => ⟨[], false⟩).Draft name
        good other (v.opened other).1 fun f => f.bytes = [] := draft.edit differ fun _ _ => rfl
    exact ⟨emptied.safe, emptied⟩

theorem guards_remove (differ : other ≠ name) :
    Guards (fun v => v.Safe name good) (fun v => v.Safe name good) (remove fate err other)
      fun _ v => v.Safe name good :=
  Guards.perform fate err (fun _ safe => safe)
    fun _ safe => ⟨safe.unlink differ, safe.unlink differ⟩

theorem guards_rename_of {inv pre : Volume ν → Prop} {src dst : ν} (before : ∀ v, pre v → inv v)
    (after : ∀ v i (here : v.names src = some i), pre v → inv (v.move src dst i here)) :
    Guards inv pre (rename fate err src dst) fun _ => inv := by
  intro v start
  unfold rename
  split
  · rename_i i here
    have moved := after v i here start
    have step : Guards inv (fun u => u = v)
        (perform fate err fun _ => ((), v.move src dst i here)) fun _ => inv := by
      apply Guards.perform
      · intro u same
        rw [same]
        exact before v start
      · intro u same
        exact ⟨moved, moved⟩
    exact step v rfl
  · exact ⟨before v start, fun _ no => by cases no⟩

theorem guards_publish (differ : other ≠ name) (ready : ∀ f, is f → f.synced = true ∧ good f.bytes) :
    Guards (fun v => v.Safe name good) (fun v => v.Draft name good other i is)
      (rename fate err other name) fun _ v => v.Safe name good := by
  apply guards_rename_of
  · intro v draft
    exact draft.safe
  · intro v j here draft
    obtain rfl : j = i := Option.some.inj (here.symm.trans draft.here)
    obtain ⟨file, stored, now⟩ := draft.file
    exact draft.safe.move differ here stored (ready file now).1 (ready file now).2

theorem guards_rename {src dst : ν} (source : src ≠ name) (target : dst ≠ name) :
    Guards (fun v => v.Safe name good) (fun v => v.Safe name good) (rename fate err src dst)
      fun _ v => v.Safe name good :=
  guards_rename_of fate err (fun _ safe => safe)
    fun _ _ here safe => safe.move_other source target here

end

end Durability
