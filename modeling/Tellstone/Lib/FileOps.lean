import Mathlib.Data.List.AList
import Tellstone.Lib.ByteStream

/-! Programs over the files of one directory. Every operation may be done, fail, or be the
point where the process dies; in the last two cases a part of its effect may be there. -/
namespace FileOps
open ByteStream

/-- `part`: how much of a write reached the file, or whether an atomic operation was carried out. -/
inductive Fate where
  | done
  | fails (part : Nat)
  | dies (part : Nat)
  deriving DecidableEq, Repr

inductive Outcome (ε α : Type) where
  | ok (value : α)
  | error (err : ε)
  | died
  deriving DecidableEq, Repr

def Prog (ε σ α : Type) := σ → Outcome ε α × σ

namespace Prog

variable {ε σ α β : Type}

def bind (m : Prog ε σ α) (next : α → Prog ε σ β) : Prog ε σ β := fun s =>
  match m s with
  | (.ok value, s) => next value s
  | (.error err, s) => (.error err, s)
  | (.died, s) => (.died, s)

instance : Monad (Prog ε σ) where
  pure value := fun s => (.ok value, s)
  bind := bind

def throw (err : ε) : Prog ε σ α := fun s => (.error err, s)

def attempt (m : Prog ε σ α) : Prog ε σ (Except ε α) := fun s =>
  match m s with
  | (.ok value, s) => (.ok (.ok value), s)
  | (.error err, s) => (.ok (.error err), s)
  | (.died, s) => (.died, s)

def mapError {ε' : Type} (f : ε → ε') (m : Prog ε σ α) : Prog ε' σ α := fun s =>
  match m s with
  | (.ok value, s) => (.ok value, s)
  | (.error err, s) => (.error (f err), s)
  | (.died, s) => (.died, s)

/-- Cleans up after a failure, and fails all the same. -/
def undoing (m : Prog ε σ α) (cleanup : ε → Prog ε σ Unit) : Prog ε σ α := do
  match ← m.attempt with
  | .ok value => pure value
  | .error err => do
    cleanup err
    throw err

theorem bind_apply (m : Prog ε σ α) (next : α → Prog ε σ β) (s : σ) :
    (m >>= next) s =
      match m s with
      | (.ok value, s) => next value s
      | (.error err, s) => (.error err, s)
      | (.died, s) => (.died, s) := rfl

theorem pure_apply (value : α) (s : σ) : (pure value : Prog ε σ α) s = (.ok value, s) := rfl

theorem mapError_ok_iff {ε' : Type} {f : ε → ε'} {m : Prog ε σ α} {s : σ} {value : α} :
    (m.mapError f s).1 = .ok value ↔ (m s).1 = .ok value := by
  unfold mapError
  rcases m s with ⟨value | err | _, t⟩ <;> simp

theorem mapError_state {ε' : Type} (f : ε → ε') (m : Prog ε σ α) (s : σ) :
    (m.mapError f s).2 = (m s).2 := by
  unfold mapError
  rcases m s with ⟨value | err | _, t⟩ <;> rfl

theorem bind_ok_iff {m : Prog ε σ α} {next : α → Prog ε σ β} {s : σ} {result : β} :
    ((m >>= next) s).1 = .ok result ↔
      ∃ value, (m s).1 = .ok value ∧ (next value (m s).2).1 = .ok result := by
  rw [bind_apply]
  rcases m s with ⟨value | err | _, t⟩ <;> simp

theorem bind_state {m : Prog ε σ α} {next : α → Prog ε σ β} {s t : σ}
    (first : (m s).2 = t) (rest : ∀ value, (m s).1 = .ok value → (next value t).2 = t) :
    ((m >>= next) s).2 = t := by
  rw [bind_apply]
  rcases ran : m s with ⟨value | err | _, u⟩
  · rw [ran] at first rest
    subst first
    exact rest value rfl
  · rw [ran] at first
    exact first
  · rw [ran] at first
    exact first

section
variable {m : Prog ε σ α} {s t : σ} {value : α}

theorem bind_ok (ran : m s = (.ok value, t)) (next : α → Prog ε σ β) :
    (m >>= next) s = next value t := by
  change bind m next s = _
  simp only [bind, ran]

end

end Prog

abbrev Dir := AList fun _ : Bytes => Bytes

section
variable {ε α β : Type}

def atomically (fate : Fate) (err : ε) (effect : Dir → Dir) : Prog ε Dir Unit := fun d =>
  match fate with
  | .done => (.ok (), effect d)
  | .fails _ => (.error err, d)
  | .dies part => (.died, if part = 0 then d else effect d)

def create (fate : Fate) (err : ε) (name : Bytes) : Prog ε Dir Unit :=
  atomically fate err fun d => d.insert name []

def write (fate : Fate) (err : ε) (name data : Bytes) : Prog ε Dir Unit := fun d =>
  match fate with
  | .done => (.ok (), d.insert name data)
  | .fails part => (.error err, d.insert name (data.take part))
  | .dies part => (.died, d.insert name (data.take part))

def settle (fate : Fate) (err : ε) : Prog ε Dir Unit := atomically fate err id

theorem settle_apply (fate : Fate) (err : ε) (d : Dir) : settle fate err d =
    match fate with
    | .done => (.ok (), d)
    | .fails _ => (.error err, d)
    | .dies _ => (.died, d) := by
  cases fate with
  | done => rfl
  | fails part => rfl
  | dies part => simp [settle, atomically]

theorem settle_attempt (fate : Fate) (err : ε) (d : Dir) : (settle fate err).attempt d =
    match fate with
    | .done => (.ok (.ok ()), d)
    | .fails _ => (.ok (.error err), d)
    | .dies _ => (.died, d) := by
  rw [Prog.attempt, settle_apply]
  cases fate <;> rfl

def remove (fate : Fate) (err : ε) (name : Bytes) : Prog ε Dir Unit :=
  atomically fate err fun d => d.erase name

def move (src dst : Bytes) (d : Dir) : Dir :=
  match d.lookup src with
  | some data => (d.erase src).insert dst data
  | none => d

def rename (fate : Fate) (err : ε) (src dst : Bytes) : Prog ε Dir Unit :=
  atomically fate err (move src dst)

theorem rename_attempt (fate : Fate) (err : ε) (src dst : Bytes) (d : Dir) :
    (rename fate err src dst).attempt d =
      match fate with
      | .done => (.ok (.ok ()), move src dst d)
      | .fails _ => (.ok (.error err), d)
      | .dies part => (.died, if part = 0 then d else move src dst d) := by
  cases fate <;> rfl

theorem lookup_move {src dst data : Bytes} {d : Dir} (found : d.lookup src = some data) :
    (move src dst d).lookup dst = some data := by
  rw [move, found]
  exact AList.lookup_insert _

def readFile (fate : Fate) (err : ε) (name : Bytes) : Prog ε Dir Bytes := fun d =>
  match fate with
  | .done =>
    match d.lookup name with
    | some data => (.ok data, d)
    | none => (.error err, d)
  | .fails _ => (.error err, d)
  | .dies _ => (.died, d)

theorem readFile_ok_iff {fate : Fate} {err : ε} {name data : Bytes} {d : Dir} :
    (readFile fate err name d).1 = .ok data ↔ fate = .done ∧ d.lookup name = some data := by
  cases fate with
  | done => cases found : d.lookup name <;> simp [readFile, found]
  | fails part => simp [readFile]
  | dies part => simp [readFile]

theorem readFile_state (fate : Fate) (err : ε) (name : Bytes) (d : Dir) :
    (readFile fate err name d).2 = d := by
  cases fate with
  | done => cases found : d.lookup name <;> simp [readFile, found]
  | fails part => rfl
  | dies part => rfl

def writeFile (fate : Fate) (err : ε) (name data : Bytes) : Prog ε Dir Unit := fun d =>
  match fate with
  | .done => (.ok (), d.insert name data)
  | .fails part => (.error err, if part = 0 then d else d.insert name (data.take (part - 1)))
  | .dies part => (.died, if part = 0 then d else d.insert name (data.take (part - 1)))

/-- A file is changed only if its name is one of those, however the program ends. -/
def Touches (names : Bytes → Prop) (m : Prog ε Dir α) : Prop :=
  ∀ d name, ¬ names name → (m d).2.lookup name = d.lookup name

namespace Touches

variable {names : Bytes → Prop} {m : Prog ε Dir α}

theorem pure (names : Bytes → Prop) (value : α) :
    Touches names (Pure.pure value : Prog ε Dir α) := fun _ _ _ => rfl

theorem throw (names : Bytes → Prop) (err : ε) : Touches names (Prog.throw err : Prog ε Dir α) :=
  fun _ _ _ => rfl

theorem bind (first : Touches names m) {next : α → Prog ε Dir β}
    (rest : ∀ value, Touches names (next value)) : Touches names (m >>= next) := by
  intro d name other
  have kept := first d name other
  rw [Prog.bind_apply]
  rcases ran : m d with ⟨value | err | _, t⟩
  · rw [ran] at kept
    exact (rest value t name other).trans kept
  · rwa [ran] at kept
  · rwa [ran] at kept

theorem attempt (touches : Touches names m) : Touches names m.attempt := by
  intro d name other
  have kept := touches d name other
  unfold Prog.attempt
  rcases ran : m d with ⟨value | err | _, t⟩ <;> rwa [ran] at kept

theorem mapError {ε' : Type} (touches : Touches names m) (f : ε → ε') :
    Touches names (m.mapError f) := by
  intro d name other
  rw [Prog.mapError_state]
  exact touches d name other

theorem insert {name other : Bytes} (mem : names name) (out : ¬ names other) (data : Bytes)
    (d : Dir) : (d.insert name data).lookup other = d.lookup other := by
  apply AList.lookup_insert_ne
  rintro rfl
  exact out mem

theorem erase {name other : Bytes} (mem : names name) (out : ¬ names other) (d : Dir) :
    (d.erase name).lookup other = d.lookup other := by
  apply AList.lookup_erase_ne
  rintro rfl
  exact out mem

theorem atomically {effect : Dir → Dir} (fate : Fate) (err : ε)
    (kept : ∀ d name, ¬ names name → (effect d).lookup name = d.lookup name) :
    Touches names (atomically fate err effect) := by
  intro d name other
  cases fate with
  | done => exact kept d name other
  | fails part => rfl
  | dies part =>
    simp only [FileOps.atomically]
    split
    · rfl
    · exact kept d name other

theorem create (fate : Fate) (err : ε) {name : Bytes} (mem : names name) :
    Touches names (create fate err name) :=
  atomically fate err fun d _ out => insert mem out [] d

theorem write (fate : Fate) (err : ε) {name : Bytes} (mem : names name) (data : Bytes) :
    Touches names (write fate err name data) := by
  intro d other out
  cases fate <;> exact insert mem out _ d

theorem settle (fate : Fate) (err : ε) : Touches names (settle fate err) :=
  atomically fate err fun _ _ _ => rfl

theorem remove (fate : Fate) (err : ε) {name : Bytes} (mem : names name) :
    Touches names (remove fate err name) :=
  atomically fate err fun d _ out => erase mem out d

theorem rename (fate : Fate) (err : ε) {src dst : Bytes} (source : names src)
    (target : names dst) : Touches names (rename fate err src dst) := by
  apply atomically
  intro d other out
  unfold move
  split
  · rw [insert target out, erase source out]
  · rfl

theorem readFile (fate : Fate) (err : ε) (name : Bytes) :
    Touches names (readFile fate err name) := by
  intro d other out
  rw [readFile_state]

theorem writeFile (fate : Fate) (err : ε) {name : Bytes} (mem : names name) (data : Bytes) :
    Touches names (writeFile fate err name data) := by
  intro d other out
  cases fate with
  | done => exact insert mem out _ d
  | fails part =>
    simp only [FileOps.writeFile]
    split
    · rfl
    · exact insert mem out _ d
  | dies part =>
    simp only [FileOps.writeFile]
    split
    · rfl
    · exact insert mem out _ d

end Touches

end

end FileOps
