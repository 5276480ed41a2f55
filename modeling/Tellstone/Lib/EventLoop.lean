import Mathlib.Data.List.Basic
import Mathlib.Logic.Function.Basic

/-! An event loop that serves connections beside workers. Results, wake-ups and closes are queued
at the connection; between any two steps others may change the backend. -/
namespace EventLoop

/-- What the traffic handler does, with the connection state at that moment. -/
inductive Note (σ α J : Type) where
  | served (state : σ) (entry : α)
  | submitted (state : σ) (job : J)

/-- What can be seen of a connection: its traffic, and the callback with a result. -/
inductive Obs (σ α J R : Type) where
  | did (note : Note σ α J)
  | finished (state : σ) (job : J) (result : R)

/-- How a call of a handler ends; `halt` is a call that does not return. -/
inductive Action where
  | none
  | close
  | halt
  deriving DecidableEq, Repr

theorem Action.none_ne_halt : Action.none ≠ .halt := by decide

theorem Action.close_ne_halt : Action.close ≠ .halt := by decide

structure Served (β σ α J : Type) where
  backend : β
  state : σ
  log : List (Note σ α J)
  action : Action

structure Finished (β σ : Type) where
  backend : β
  state : σ
  closes : Bool

/-- The handlers of a server. `ι` and `ο` are what the outside decides in a call. -/
structure Listener (ι ο β σ α J R : Type) where
  opened : ι → β → σ
  receive : ι → σ → σ
  traffic : ι → β → σ → Served β σ α J
  verify : ο → β → J → R
  finish : ι → β → σ → J → R → Finished β σ

inductive Task (J R : Type) where
  | finish (job : J) (result : R)
  | wake
  | close

def Task.isFinish {J R : Type} : Task J R → Bool
  | finish _ _ => true
  | _ => false

def Task.isClose {J R : Type} : Task J R → Bool
  | close => true
  | _ => false

def Task.after {J R : Type} (closes : Bool) : Task J R := if closes then .close else .wake

structure Conn (σ J R : Type) where
  state : σ
  tasks : List (Task J R)

def Conn.closes {σ J R : Type} (c : Conn σ J R) : Bool := c.tasks.any Task.isClose

/-- Connections are numbered as they come in; jobs wait in `queue` for a worker. -/
structure World (β σ J R : Type) where
  backend : β
  conns : Nat → Option (Conn σ J R)
  next : Nat
  queue : List (Nat × J)
  working : List (Nat × J)

inductive Event (ι ο β : Type) where
  | accept (input : ι)
  | readable (id : Nat) (input : ι)
  | take
  | verified (i : Nat) (oracle : ο)
  | task (id : Nat) (input : ι)
  | expire (id : Nat)
  | hangup (id : Nat)
  | external (change : β → β)

def Note.state {σ α J : Type} : Note σ α J → σ
  | served s _ => s
  | submitted s _ => s

def Note.job? {σ α J : Type} : Note σ α J → Option J
  | submitted _ job => some job
  | served _ _ => none

variable {ι ο β σ α J R : Type}

def Served.jobs (r : Served β σ α J) : List J := r.log.filterMap Note.job?

namespace World

def start (backend : β) : World β σ J R := ⟨backend, fun _ => none, 0, [], []⟩

def put (w : World β σ J R) (id : Nat) (c : Option (Conn σ J R)) : World β σ J R :=
  { w with conns := Function.update w.conns id c }

def post (w : World β σ J R) (id : Nat) (t : Task J R) : World β σ J R :=
  match w.conns id with
  | none => w
  | some c => w.put id (some ⟨c.state, c.tasks ++ [t]⟩)

def settle (w : World β σ J R) (id : Nat) (tasks : List (Task J R)) (r : Served β σ α J) :
    World β σ J R :=
  { w with
    backend := r.backend
    conns := Function.update w.conns id (if r.action = .none then some ⟨r.state, tasks⟩ else none)
    queue := w.queue ++ r.jobs.map fun job => (id, job) }

def serve (L : Listener ι ο β σ α J R) (w : World β σ J R) (id : Nat) (input : ι)
    (s : σ) (tasks : List (Task J R)) : World β σ J R × List (Nat × Obs σ α J R) :=
  let r := L.traffic input w.backend s
  (w.settle id tasks r, r.log.map fun n => (id, .did n))

/-- A wake-up runs the traffic handler with nothing new to read, and a result comes with a
wake-up. -/
def runTask (L : Listener ι ο β σ α J R) (w : World β σ J R) (id : Nat) (input : ι)
    (c : Conn σ J R) : World β σ J R × List (Nat × Obs σ α J R) :=
  match c.tasks with
  | [] => (w, [])
  | .close :: _ => (w.put id none, [])
  | .wake :: tasks => w.serve L id input c.state tasks
  | .finish job result :: tasks =>
    let (w, log) := w.serve L id input c.state tasks
    match w.conns id with
    | none => (w, log)
    | some c =>
      let f := L.finish input w.backend c.state job result
      ({ w with backend := f.backend }.put id
          (some ⟨f.state, c.tasks ++ [Task.after f.closes]⟩),
        log ++ [(id, .finished c.state job result)])

def step (L : Listener ι ο β σ α J R) (w : World β σ J R) :
    Event ι ο β → World β σ J R × List (Nat × Obs σ α J R)
  | .accept input =>
    ({ w with next := w.next + 1 }.put w.next (some ⟨L.opened input w.backend, []⟩), [])
  | .readable id input =>
    match w.conns id with
    | none => (w, [])
    | some c => w.serve L id input (L.receive input c.state) c.tasks
  | .take =>
    match w.queue with
    | [] => (w, [])
    | job :: queue => ({ w with queue := queue, working := w.working ++ [job] }, [])
  | .verified i oracle =>
    match w.working[i]? with
    | none => (w, [])
    | some (id, job) =>
      ({ w with working := w.working.eraseIdx i }.post id
        (.finish job (L.verify oracle w.backend job)), [])
  | .task id input =>
    match w.conns id with
    | none => (w, [])
    | some c => w.runTask L id input c
  | .expire id => (w.post id .close, [])
  | .hangup id => (w.put id none, [])
  | .external change => ({ w with backend := change w.backend }, [])

def run (L : Listener ι ο β σ α J R) :
    World β σ J R → List (Event ι ο β) → World β σ J R × List (Nat × Obs σ α J R)
  | w, [] => (w, [])
  | w, ev :: events =>
    let (w, log) := w.step L ev
    let (w, rest) := run L w events
    (w, log ++ rest)

def handled (w : World β σ J R) : Event ι ο β → Option (Conn σ J R)
  | .readable id _ => w.conns id
  | .task id _ =>
    (w.conns id).bind fun c =>
      match c.tasks with
      | .wake :: _ | .finish _ _ :: _ => some c
      | _ => none
  | _ => none

/-- Along a run, the traffic handler of a connection is not run while a close is queued. -/
def Prompt (L : Listener ι ο β σ α J R) : World β σ J R → List (Event ι ο β) → Prop
  | _, [] => True
  | w, ev :: events => (∀ c ∈ w.handled ev, c.closes = false) ∧ Prompt L (w.step L ev).1 events

instance decidablePrompt (L : Listener ι ο β σ α J R) :
    (w : World β σ J R) → (events : List (Event ι ο β)) → Decidable (Prompt L w events)
  | _, [] => inferInstanceAs (Decidable True)
  | w, ev :: events =>
    have := decidablePrompt L (w.step L ev).1 events
    inferInstanceAs
      (Decidable ((∀ c ∈ w.handled ev, c.closes = false) ∧ Prompt L (w.step L ev).1 events))

def outstanding (w : World β σ J R) (id : Nat) : Nat :=
  w.queue.countP (fun j => j.1 = id) + w.working.countP (fun j => j.1 = id) +
    ((w.conns id).map fun c => c.tasks.countP Task.isFinish).getD 0

def called (L : Listener ι ο β σ α J R) (w : World β σ J R) (id : Nat) (input : ι)
    (c : Conn σ J R) (job : J) (result : R) (tasks : List (Task J R)) : World β σ J R :=
  let r := L.traffic input w.backend c.state
  let f := L.finish input r.backend r.state job result
  { w with
    backend := f.backend
    conns := Function.update w.conns id
      (some ⟨f.state, tasks ++ [Task.after f.closes]⟩)
    queue := w.queue ++ r.jobs.map fun job => (id, job) }

/-- One step: whose traffic handler it runs, what it makes of the world, and what it logs. -/
inductive Move (L : Listener ι ο β σ α J R) (w : World β σ J R) :
    Option (Conn σ J R) → World β σ J R → List (Nat × Obs σ α J R) → Prop where
  | idle : Move L w none w []
  | accept (input : ι) : Move L w none
      ({ w with next := w.next + 1 }.put w.next (some ⟨L.opened input w.backend, []⟩)) []
  | serve (id : Nat) (input : ι) (c : Conn σ J R) (s : σ) (tasks : List (Task J R))
      (there : w.conns id = some c) (seen : s = c.state ∨ s = L.receive input c.state)
      (rest : c.tasks = tasks ∨ c.tasks = .wake :: tasks ∨
        (L.traffic input w.backend s).action ≠ .none) :
      Move L w (some c) (w.settle id tasks (L.traffic input w.backend s))
        ((L.traffic input w.backend s).log.map fun n => (id, .did n))
  | finish (id : Nat) (input : ι) (c : Conn σ J R) (job : J) (result : R)
      (tasks : List (Task J R)) (there : w.conns id = some c)
      (first : c.tasks = .finish job result :: tasks)
      (stays : (L.traffic input w.backend c.state).action = .none) :
      Move L w (some c) (w.called L id input c job result tasks)
        ((L.traffic input w.backend c.state).log.map (fun n => (id, .did n)) ++
          [(id, .finished (L.traffic input w.backend c.state).state job result)])
  | take (job : Nat × J) (queue : List (Nat × J)) (first : w.queue = job :: queue) :
      Move L w none { w with queue := queue, working := w.working ++ [job] } []
  | verified (i id : Nat) (job : J) (oracle : ο) (busy : w.working[i]? = some (id, job)) :
      Move L w none ({ w with working := w.working.eraseIdx i }.post id
        (.finish job (L.verify oracle w.backend job))) []
  | expire (id : Nat) : Move L w none (w.post id .close) []
  | close (id : Nat) : Move L w none (w.put id none) []
  | external (change : β → β) : Move L w none { w with backend := change w.backend } []

theorem step_move (L : Listener ι ο β σ α J R) (w : World β σ J R) (ev : Event ι ο β) :
    Move L w (w.handled ev) (w.step L ev).1 (w.step L ev).2 := by
  cases ev with
  | accept input => exact .accept input
  | readable id input =>
    cases there : w.conns id with
    | none =>
      simp only [step, handled, there]
      exact .idle
    | some c =>
      simp only [step, handled, there]
      exact .serve id input c _ c.tasks there (Or.inr rfl) (Or.inl rfl)
  | take =>
    simp only [step, handled]
    split
    · exact .idle
    · rename_i job queue first
      exact .take job queue first
  | verified i oracle =>
    simp only [step, handled]
    split
    · exact .idle
    · rename_i id job busy
      exact .verified i id job oracle busy
  | task id input =>
    cases there : w.conns id with
    | none =>
      simp only [step, handled, there, Option.bind_none]
      exact .idle
    | some c =>
      rcases first : c.tasks with _ | ⟨t, tasks⟩
      · simp only [step, handled, there, Option.bind_some, runTask, first]
        exact .idle
      cases t with
      | close =>
        simp only [step, handled, there, Option.bind_some, runTask, first]
        exact .close id
      | wake =>
        simp only [step, handled, there, Option.bind_some, runTask, first]
        exact .serve id input c _ tasks there (Or.inl rfl) (Or.inr (Or.inl first))
      | finish job result =>
        simp only [step, handled, there, Option.bind_some, runTask, first, serve]
        by_cases stays : (L.traffic input w.backend c.state).action = .none
        · have kept : (w.settle id tasks (L.traffic input w.backend c.state)).conns id =
              some ⟨(L.traffic input w.backend c.state).state, tasks⟩ := by
            simp [settle, stays]
          have done := Move.finish id input c job result tasks there first stays
          simp only [kept]
          simpa only [called, settle, put, Function.update_idem] using done
        · have gone : (w.settle id tasks (L.traffic input w.backend c.state)).conns id = none := by
            simp [settle, stays]
          simp only [gone]
          exact .serve id input c _ tasks there (Or.inl rfl) (Or.inr (Or.inr stays))
  | expire id => exact .expire id
  | hangup id => exact .close id
  | external change => exact .external change

theorem mem_map_did {id k : Nat} {notes : List (Note σ α J)} {o : Obs σ α J R}
    (mem : (id, o) ∈ notes.map fun n => (k, .did n)) : id = k ∧ ∃ n ∈ notes, o = .did n := by
  obtain ⟨n, logged, same⟩ := List.mem_map.mp mem
  cases same
  exact ⟨rfl, n, logged, rfl⟩

theorem found_update {conns : Nat → Option (Conn σ J R)} {id k : Nat}
    {conn : Option (Conn σ J R)} {c : Conn σ J R}
    (found : Function.update conns id conn k = some c) :
    (k = id ∧ conn = some c) ∨ conns k = some c := by
  by_cases here : k = id
  · subst here
    rw [Function.update_self] at found
    exact Or.inl ⟨rfl, found⟩
  · rw [Function.update_of_ne here] at found
    exact Or.inr found

theorem Move.did {L : Listener ι ο β σ α J R} {w w' : World β σ J R} {runs : Option (Conn σ J R)}
    {log : List (Nat × Obs σ α J R)} (move : Move L w runs w' log) {id : Nat} {n : Note σ α J}
    (mem : (id, .did n) ∈ log) : ∃ input b s, n ∈ (L.traffic input b s).log ∧
      ∀ n' ∈ (L.traffic input b s).log, (id, .did n') ∈ log := by
  cases move with
  | serve k input c s tasks there seen rest =>
    obtain ⟨rfl, _, logged, ⟨⟩⟩ := mem_map_did mem
    exact ⟨input, w.backend, s, logged, fun n' mem' => List.mem_map_of_mem mem'⟩
  | finish k input c job result tasks there first stays =>
    rcases List.mem_append.mp mem with early | late
    · obtain ⟨rfl, _, logged, ⟨⟩⟩ := mem_map_did early
      exact ⟨input, w.backend, c.state, logged,
        fun n' mem' => List.mem_append_left _ (List.mem_map_of_mem mem')⟩
    · cases List.mem_singleton.mp late
  | _ => cases mem

theorem run_did {L : Listener ι ο β σ α J R} {w : World β σ J R} {events : List (Event ι ο β)}
    {id : Nat} {n : Note σ α J} (mem : (id, .did n) ∈ (w.run L events).2) :
    ∃ input b s, n ∈ (L.traffic input b s).log ∧
      ∀ n' ∈ (L.traffic input b s).log, (id, .did n') ∈ (w.run L events).2 := by
  induction events generalizing w with
  | nil => cases mem
  | cons ev events ih =>
    rcases List.mem_append.mp mem with early | late
    · obtain ⟨input, b, s, logged, all⟩ := (step_move L w ev).did early
      exact ⟨input, b, s, logged, fun n' mem' => List.mem_append_left _ (all n' mem')⟩
    · obtain ⟨input, b, s, logged, all⟩ := ih late
      exact ⟨input, b, s, logged, fun n' mem' => List.mem_append_right _ (all n' mem')⟩

end World

/-- The handlers keep `Inv` and do only what is `Good` until the connection is `closing`; whoever
makes it so closes it. -/
structure Listener.Keeps (L : Listener ι ο β σ α J R) (Inv : σ → Prop) (closing : σ → Bool)
    (Good : Note σ α J → Prop) : Prop where
  opened : ∀ input b, Inv (L.opened input b) ∧ closing (L.opened input b) = false
  receive : ∀ input s, Inv s → Inv (L.receive input s) ∧ closing (L.receive input s) = closing s
  traffic : ∀ input b s, Inv s → closing s = false →
    (∀ n ∈ (L.traffic input b s).log, Good n) ∧
      ((L.traffic input b s).action = .none →
        Inv (L.traffic input b s).state ∧ closing (L.traffic input b s).state = false)
  finish : ∀ input b s job r, Inv s → closing s = false →
    Inv (L.finish input b s job r).state ∧
      (closing (L.finish input b s job r).state = true → (L.finish input b s job r).closes = true)

namespace World

/-- Every connection satisfies `Inv`, and one that is closing has its close queued. -/
def Kept (Inv : σ → Prop) (closing : σ → Bool) (w : World β σ J R) : Prop :=
  ∀ id c, w.conns id = some c → Inv c.state ∧ (closing c.state = true → c.closes = true)

section
variable {L : Listener ι ο β σ α J R} {Inv : σ → Prop} {closing : σ → Bool}
  {Good : Note σ α J → Prop} {w w' : World β σ J R} {log : List (Nat × Obs σ α J R)}
  {runs : Option (Conn σ J R)}

theorem kept_start (Inv : σ → Prop) (closing : σ → Bool) (b : β) :
    (start b : World β σ J R).Kept Inv closing := by
  intro id c there
  cases there

theorem Kept.update (kept : w.Kept Inv closing) {id : Nat} {conn : Option (Conn σ J R)}
    (same : w'.conns = Function.update w.conns id conn)
    (inv : ∀ c, conn = some c → Inv c.state ∧ (closing c.state = true → c.closes = true)) :
    w'.Kept Inv closing := by
  intro k c there
  rw [same] at there
  rcases found_update there with ⟨-, replaced⟩ | other
  · exact inv c replaced
  · exact kept k c other

theorem Kept.post (kept : w.Kept Inv closing) (id : Nat) (t : Task J R) :
    (w.post id t).Kept Inv closing := by
  unfold World.post
  split
  · exact kept
  · rename_i c there
    refine kept.update rfl ?_
    rintro _ ⟨⟩
    obtain ⟨inv, queued⟩ := kept id c there
    refine ⟨inv, fun closes => ?_⟩
    rw [Conn.closes, List.any_append]
    exact Bool.or_eq_true_iff.mpr (Or.inl (queued closes))

theorem Kept.ready (kept : w.Kept Inv closing) {id : Nat} {c : Conn σ J R}
    (there : w.conns id = some c) (prompt : c.closes = false) :
    Inv c.state ∧ closing c.state = false := by
  obtain ⟨inv, queued⟩ := kept id c there
  refine ⟨inv, eq_false_of_ne_true fun closes => ?_⟩
  exact Bool.false_ne_true (prompt.symm.trans (queued closes))

theorem Move.keeps (keeps : L.Keeps Inv closing Good) (kept : w.Kept Inv closing)
    (move : Move L w runs w' log) (prompt : ∀ c ∈ runs, c.closes = false) :
    w'.Kept Inv closing ∧ ∀ id n, (id, .did n) ∈ log → Good n := by
  cases move with
  | idle => exact ⟨kept, nofun⟩
  | accept input =>
    refine ⟨kept.update rfl ?_, nofun⟩
    rintro _ ⟨⟩
    obtain ⟨inv, stays⟩ := keeps.opened input w.backend
    exact ⟨inv, fun closes => absurd (stays.symm.trans closes) Bool.false_ne_true⟩
  | serve id input c s tasks there seen rest =>
    have before : Inv s ∧ closing s = false := by
      obtain ⟨inv, stays⟩ := kept.ready there (prompt c rfl)
      rcases seen with rfl | rfl
      · exact ⟨inv, stays⟩
      · obtain ⟨inv', same⟩ := keeps.receive input _ inv
        exact ⟨inv', same.trans stays⟩
    obtain ⟨good, after⟩ := keeps.traffic input w.backend s before.1 before.2
    constructor
    · refine kept.update rfl ?_
      intro c' left
      split at left
      · rename_i none
        cases left
        obtain ⟨inv, stays⟩ := after none
        exact ⟨inv, fun closes => absurd (stays.symm.trans closes) Bool.false_ne_true⟩
      · cases left
    · intro k n mem
      obtain ⟨-, _, logged, ⟨⟩⟩ := mem_map_did mem
      exact good n logged
  | finish id input c job result tasks there first stays =>
    obtain ⟨inv, unmarked⟩ := kept.ready there (prompt c rfl)
    obtain ⟨good, after⟩ := keeps.traffic input w.backend c.state inv unmarked
    obtain ⟨last, closes⟩ := keeps.finish input (L.traffic input w.backend c.state).backend _ job
      result (after stays).1 (after stays).2
    constructor
    · refine kept.update rfl ?_
      rintro _ ⟨⟩
      refine ⟨last, fun closing => ?_⟩
      rw [Conn.closes, List.any_append, closes closing]
      exact Bool.or_true _
    · intro k n mem
      rcases List.mem_append.mp mem with early | late
      · obtain ⟨-, _, logged, ⟨⟩⟩ := mem_map_did early
        exact good n logged
      · cases List.mem_singleton.mp late
  | take job queue first => exact ⟨kept, nofun⟩
  | verified i id job oracle busy =>
    have same : World.Kept Inv closing { w with working := w.working.eraseIdx i } := kept
    exact ⟨same.post id _, nofun⟩
  | expire id => exact ⟨kept.post id _, nofun⟩
  | close id =>
    refine ⟨kept.update rfl ?_, nofun⟩
    rintro _ ⟨⟩
  | external change => exact ⟨kept, nofun⟩

theorem run_keeps (keeps : L.Keeps Inv closing Good) (kept : w.Kept Inv closing)
    {events : List (Event ι ο β)} (prompt : w.Prompt L events) {id : Nat} {n : Note σ α J}
    (mem : (id, .did n) ∈ (w.run L events).2) : Good n := by
  induction events generalizing w with
  | nil => cases mem
  | cons ev events ih =>
    obtain ⟨now, later⟩ := prompt
    obtain ⟨next, good⟩ := (step_move L w ev).keeps keeps kept now
    rcases List.mem_append.mp mem with early | late
    · exact good id n early
    · exact ih next later late

end

end World

/-- A job is submitted only while none is outstanding, which `pending` tells; the callback ends
that. -/
structure Listener.OneAtATime (L : Listener ι ο β σ α J R) (pending : σ → Bool) : Prop where
  opened : ∀ input b, pending (L.opened input b) = false
  receive : ∀ input s, pending (L.receive input s) = pending s
  traffic : ∀ input b s,
    (L.traffic input b s).jobs.length + (pending s).toNat ≤ 1 ∧
      ((L.traffic input b s).action = .none →
        (pending (L.traffic input b s).state).toNat =
          (L.traffic input b s).jobs.length + (pending s).toNat)
  finish : ∀ input b s job r, pending (L.finish input b s job r).state = false

namespace World

/-- Every connection has as many jobs outstanding as it thinks, at most one. -/
structure Tracked (pending : σ → Bool) (w : World β σ J R) : Prop where
  fresh : ∀ id, w.next ≤ id → w.conns id = none ∧ w.outstanding id = 0
  alone : ∀ id, w.outstanding id ≤ 1
  pends : ∀ id c, w.conns id = some c → w.outstanding id = (pending c.state).toNat

theorem tracked_start (pending : σ → Bool) (b : β) :
    (start b : World β σ J R).Tracked pending := by
  have none_out (id : Nat) : (start b : World β σ J R).outstanding id = 0 := by
    simp [outstanding, start]
  refine ⟨fun id _ => ⟨rfl, none_out id⟩, fun id => by simp [none_out id], ?_⟩
  intro id c there
  cases there

def waiting (c : Option (Conn σ J R)) : Nat :=
  (c.map fun c => c.tasks.countP Task.isFinish).getD 0

theorem outstanding_eq (w : World β σ J R) (id : Nat) :
    w.outstanding id = w.queue.countP (fun j => j.1 = id) +
      w.working.countP (fun j => j.1 = id) + waiting (w.conns id) := rfl

theorem countP_own (id k : Nat) (jobs : List J) :
    (jobs.map fun job => (id, job)).countP (fun j => j.1 = k) =
      if id = k then jobs.length else 0 := by
  split
  · rename_i same
    simp [List.countP_map, Function.comp_def, same]
  · rename_i other
    simp [List.countP_map, Function.comp_def, other]

theorem countP_eraseIdx {γ : Type} (p : γ → Bool) {l : List γ} {i : Nat} {x : γ}
    (there : l[i]? = some x) : (l.eraseIdx i).countP p + (p x).toNat = l.countP p := by
  induction l generalizing i with
  | nil => simp at there
  | cons a l ih =>
    cases i with
    | zero =>
      simp only [List.getElem?_cons_zero, Option.some.injEq] at there
      subst there
      cases holds : p a <;> simp [holds]
    | succ i =>
      simp only [List.getElem?_cons_succ] at there
      have rest := ih there
      simp only [List.eraseIdx_cons_succ, List.countP_cons]
      omega

section
variable {pending : σ → Bool} {w w' : World β σ J R}

theorem Tracked.known (tracked : w.Tracked pending) {id : Nat} {c : Conn σ J R}
    (there : w.conns id = some c) : id < w.next := by
  by_contra unknown
  have gone := (tracked.fresh id (Nat.le_of_not_lt unknown)).1
  rw [there] at gone
  cases gone

theorem Tracked.change (tracked : w.Tracked pending) (k : Nat) (grows : w.next ≤ w'.next)
    (others : ∀ id, id ≠ k → w'.conns id = w.conns id ∧ w'.outstanding id = w.outstanding id)
    (fresh : w'.next ≤ k → w'.conns k = none ∧ w'.outstanding k = 0)
    (alone : w'.outstanding k ≤ 1)
    (pends : ∀ c, w'.conns k = some c → w'.outstanding k = (pending c.state).toNat) :
    w'.Tracked pending := by
  constructor
  · intro id unknown
    by_cases here : id = k
    · subst here
      exact fresh unknown
    · obtain ⟨conn, count⟩ := others id here
      rw [conn, count]
      exact tracked.fresh id (Nat.le_trans grows unknown)
  · intro id
    by_cases here : id = k
    · subst here
      exact alone
    · rw [(others id here).2]
      exact tracked.alone id
  · intro id c there
    by_cases here : id = k
    · subst here
      exact pends c there
    · obtain ⟨conn, count⟩ := others id here
      rw [count]
      rw [conn] at there
      exact tracked.pends id c there

theorem Tracked.without (tracked : w.Tracked pending) (k : Nat) (next : w'.next = w.next)
    (others : ∀ id, id ≠ k → w'.conns id = w.conns id ∧ w'.outstanding id = w.outstanding id)
    (gone : w'.conns k = none) (fewer : w'.outstanding k ≤ w.outstanding k) :
    w'.Tracked pending := by
  have alone := Nat.le_trans fewer (tracked.alone k)
  refine tracked.change k (Nat.le_of_eq next.symm) others ?_ alone ?_
  · intro unknown
    rw [next] at unknown
    have none_out := (tracked.fresh k unknown).2
    exact ⟨gone, Nat.eq_zero_of_le_zero (Nat.le_trans fewer (Nat.le_of_eq none_out))⟩
  · intro c found
    cases gone.symm.trans found

theorem Tracked.post (tracked : w.Tracked pending) {id : Nat} {t : Task J R}
    {working : List (Nat × J)}
    (moved : ∀ k, working.countP (fun j => j.1 = k) +
      (if k = id then t.isFinish.toNat else 0) =
        w.working.countP (fun j => j.1 = k)) :
    ({ w with working := working }.post id t).Tracked pending := by
  have own := moved id
  rw [if_pos rfl] at own
  have known := tracked.pends id
  unfold World.post
  cases there : w.conns id with
  | none =>
    have fewer : World.outstanding { w with working := working } id ≤ w.outstanding id := by
      simp only [outstanding_eq]
      omega
    refine tracked.without id rfl ?_ there fewer
    intro k other
    have same := moved k
    rw [if_neg other, Nat.add_zero] at same
    simp only [outstanding_eq, same, and_self]
  | some c =>
    have same : World.outstanding ({ w with working := working }.put id
        (some ⟨c.state, c.tasks ++ [t]⟩)) id = w.outstanding id := by
      have finishes : List.countP Task.isFinish [t] =
          t.isFinish.toNat := by
        cases t <;> rfl
      simp only [outstanding_eq, waiting, put, Function.update_self, there, Option.map_some,
        Option.getD_some, List.countP_append, finishes]
      omega
    refine tracked.change id (Nat.le_refl _) ?_ ?_ (by rw [same]; exact tracked.alone id) ?_
    · intro k other
      have equal := moved k
      rw [if_neg other, Nat.add_zero] at equal
      simp only [outstanding_eq, put, Function.update_of_ne other, equal, and_self]
    · intro unknown
      exact absurd (tracked.known there) (Nat.not_lt.mpr unknown)
    · intro c' found
      simp only [put, Function.update_self, Option.some.injEq] at found
      subst found
      rw [same]
      exact tracked.pends id c there

theorem Tracked.replace (tracked : w.Tracked pending) {id : Nat} {c : Conn σ J R}
    (there : w.conns id = some c) (b : β) (conn : Option (Conn σ J R)) (jobs : List J)
    (alone : jobs.length + (pending c.state).toNat + waiting conn ≤ 1 + waiting (some c))
    (pends : ∀ c', conn = some c' → jobs.length + (pending c.state).toNat + waiting conn =
      (pending c'.state).toNat + waiting (some c)) :
    World.Tracked pending ⟨b, Function.update w.conns id conn, w.next,
      w.queue ++ jobs.map fun job => (id, job), w.working⟩ := by
  have before := tracked.pends id c there
  rw [outstanding_eq, there] at before
  have after : World.outstanding ⟨b, Function.update w.conns id conn, w.next,
      w.queue ++ jobs.map fun job => (id, job), w.working⟩ id + waiting (some c) =
        (pending c.state).toNat + jobs.length + waiting conn := by
    simp only [outstanding_eq, Function.update_self, List.countP_append, countP_own, if_pos]
    omega
  refine tracked.change id (Nat.le_refl _) ?_ ?_ (by omega) ?_
  · intro k other
    simp only [outstanding_eq, Function.update_of_ne other, List.countP_append, countP_own,
      if_neg (Ne.symm other), Nat.add_zero, and_self]
  · intro unknown
    exact absurd (tracked.known there) (Nat.not_lt.mpr unknown)
  · intro c' found
    simp only [Function.update_self] at found
    have now := pends c' found
    omega

theorem waiting_some (c : Conn σ J R) : waiting (some c) = c.tasks.countP Task.isFinish := rfl

theorem Tracked.accept (tracked : w.Tracked pending) {s : σ} (idle : pending s = false) :
    ({ w with next := w.next + 1 }.put w.next (some ⟨s, []⟩)).Tracked pending := by
  have none_out := (tracked.fresh w.next (Nat.le_refl _)).2
  have none_out' :
      World.outstanding ({ w with next := w.next + 1 }.put w.next (some ⟨s, []⟩)) w.next = 0 := by
    simp only [outstanding_eq] at none_out
    simp only [outstanding_eq, put, Function.update_self, waiting, Option.map_some,
      Option.getD_some, List.countP_nil]
    omega
  refine tracked.change w.next (Nat.le_succ _) ?_ ?_ (by rw [none_out']; exact Nat.zero_le 1) ?_
  · intro id other
    simp only [outstanding_eq, put, Function.update_of_ne other, and_self]
  · intro unknown
    exact absurd unknown (Nat.not_le.mpr (Nat.lt_succ_self _))
  · intro c found
    simp only [put, Function.update_self, Option.some.injEq] at found
    subst found
    rw [none_out', idle]
    rfl

theorem Tracked.finishing (tracked : w.Tracked pending) {id : Nat} {c : Conn σ J R}
    (there : w.conns id = some c) {job : J} {result : R} {tasks : List (Task J R)}
    (first : c.tasks = .finish job result :: tasks) : pending c.state = true := by
  have count := tracked.pends id c there
  rw [outstanding_eq, there, waiting_some, first, List.countP_cons_of_pos rfl] at count
  cases idle : pending c.state with
  | true => rfl
  | false =>
    rw [idle, Bool.toNat_false] at count
    omega

theorem Tracked.take (tracked : w.Tracked pending) {job : Nat × J} {queue : List (Nat × J)}
    (first : w.queue = job :: queue) :
    World.Tracked pending { w with queue := queue, working := w.working ++ [job] } := by
  have same : ∀ id, World.outstanding { w with queue := queue, working := w.working ++ [job] } id =
      w.outstanding id := by
    intro id
    simp only [outstanding_eq, first, List.countP_append, List.countP_cons, List.countP_nil]
    omega
  refine ⟨?_, ?_, ?_⟩
  · intro id unknown
    rw [same]
    exact tracked.fresh id unknown
  · intro id
    rw [same]
    exact tracked.alone id
  · intro id c there
    rw [same]
    exact tracked.pends id c there

theorem Tracked.close (tracked : w.Tracked pending) (id : Nat) :
    (w.put id none).Tracked pending := by
  refine tracked.without id rfl ?_ (Function.update_self _ _ _) ?_
  · intro k other
    simp only [outstanding_eq, put, Function.update_of_ne other, and_self]
  · simp only [outstanding_eq, put, Function.update_self]
    exact Nat.add_le_add_left (Nat.zero_le _) _

theorem isFinish_after (closes : Bool) : (Task.after closes : Task J R).isFinish = false := by
  cases closes <;> rfl

theorem Move.tracked {L : Listener ι ο β σ α J R} {log : List (Nat × Obs σ α J R)}
    {runs : Option (Conn σ J R)} (one : L.OneAtATime pending) (tracked : w.Tracked pending)
    (move : Move L w runs w' log) : w'.Tracked pending := by
  cases move with
  | idle => exact tracked
  | accept input => exact tracked.accept (one.opened input w.backend)
  | serve id input c s tasks there seen rest =>
    have same : pending s = pending c.state := by
      rcases seen with rfl | rfl
      · rfl
      · exact one.receive input c.state
    obtain ⟨most, exactly⟩ := one.traffic input w.backend s
    rw [same] at most exactly
    have waits : (L.traffic input w.backend s).action = .none →
        waiting (some c) = tasks.countP Task.isFinish := by
      intro stays
      rcases rest with same | woken | gone
      · rw [waiting_some, same]
      · simp [waiting_some, woken, Task.isFinish]
      · exact absurd stays gone
    refine tracked.replace there _ _ _ ?_ ?_
    · split
      · rename_i stays
        rw [waits stays]
        exact Nat.add_le_add_right most _
      · exact Nat.le_trans most (Nat.le_add_right _ _)
    · intro c' found
      split at found
      · rename_i stays
        cases found
        rw [if_pos stays, waits stays, waiting_some, exactly stays]
      · cases found
  | finish id input c job result tasks there first stays =>
    obtain ⟨most, exactly⟩ := one.traffic input w.backend c.state
    have waits : waiting (some c) = tasks.countP Task.isFinish + 1 := by
      rw [waiting_some, first, List.countP_cons_of_pos rfl]
    have idle := one.finish input (L.traffic input w.backend c.state).backend
      (L.traffic input w.backend c.state).state job result
    have left (closes : Bool) : (tasks ++ [Task.after closes]).countP Task.isFinish =
        tasks.countP Task.isFinish := by
      rw [List.countP_append, List.countP_singleton, isFinish_after]
      rfl
    rw [tracked.finishing there first, Bool.toNat_true] at most
    refine tracked.replace there _ _ _ ?_ ?_
    · rw [waits, waiting_some, left, tracked.finishing there first, Bool.toNat_true]
      omega
    · rintro _ ⟨⟩
      rw [waits, waiting_some, left, idle, tracked.finishing there first, Bool.toNat_true,
        Bool.toNat_false]
      omega
  | take job queue first => exact tracked.take first
  | verified i id job oracle busy =>
    apply tracked.post
    intro k
    rw [← countP_eraseIdx (fun j => decide (j.1 = k)) busy]
    by_cases own : k = id
    · simp [own, Task.isFinish]
    · simp [own, Ne.symm own]
  | expire id => exact tracked.post (fun k => by simp [Task.isFinish])
  | close id => exact tracked.close id
  | external change => exact ⟨tracked.fresh, tracked.alone, tracked.pends⟩

theorem run_tracked {L : Listener ι ο β σ α J R} (one : L.OneAtATime pending)
    (tracked : w.Tracked pending) (events : List (Event ι ο β)) :
    (w.run L events).1.Tracked pending := by
  induction events generalizing w with
  | nil => exact tracked
  | cons ev events ih => exact ih ((step_move L w ev).tracked one tracked)

end

/-- Every job in flight was submitted on its connection, and every waiting result is one its
verification gave. -/
structure Sourced (L : Listener ι ο β σ α J R) (w : World β σ J R)
    (trace : List (Nat × Obs σ α J R)) : Prop where
  jobs : ∀ j ∈ w.queue ++ w.working, ∃ s, (j.1, .did (.submitted s j.2)) ∈ trace
  results : ∀ id c, w.conns id = some c → ∀ job result, Task.finish job result ∈ c.tasks →
    (∃ s, (id, .did (.submitted s job)) ∈ trace) ∧ ∃ oracle b, result = L.verify oracle b job

section
variable {L : Listener ι ο β σ α J R} {w w' : World β σ J R}
  {trace log : List (Nat × Obs σ α J R)} {runs : Option (Conn σ J R)}

theorem sourced_start (L : Listener ι ο β σ α J R) (b : β) : (start b).Sourced L [] := by
  constructor
  · intro j mem
    simp [start] at mem
  · intro id c there
    cases there

theorem Sourced.mono (sourced : w.Sourced L trace) (log : List (Nat × Obs σ α J R)) :
    w.Sourced L (trace ++ log) := by
  constructor
  · intro j mem
    obtain ⟨s, at_s⟩ := sourced.jobs j mem
    exact ⟨s, List.mem_append_left _ at_s⟩
  · intro id c there job result mem
    obtain ⟨⟨s, at_s⟩, verified⟩ := sourced.results id c there job result mem
    exact ⟨⟨s, List.mem_append_left _ at_s⟩, verified⟩

theorem Sourced.replace (sourced : w.Sourced L trace) {id : Nat} {c : Conn σ J R}
    (there : w.conns id = some c) (r : Served β σ α J) (b : β) (conn : Option (Conn σ J R))
    (log : List (Nat × Obs σ α J R)) (logged : ∀ n ∈ r.log, (id, .did n) ∈ log)
    (fewer : ∀ c', conn = some c' → ∀ job result, Task.finish job result ∈ c'.tasks →
      Task.finish job result ∈ c.tasks) :
    World.Sourced L ⟨b, Function.update w.conns id conn, w.next,
      w.queue ++ r.jobs.map fun job => (id, job), w.working⟩ (trace ++ log) := by
  have before := sourced.mono log
  constructor
  · intro j mem
    rcases List.mem_append.mp mem with queued | working
    · rcases List.mem_append.mp queued with old | new
      · exact before.jobs j (List.mem_append_left _ old)
      · obtain ⟨job, submitted, rfl⟩ := List.mem_map.mp new
        obtain ⟨o, at_o, is_job⟩ := List.mem_filterMap.mp submitted
        cases o with
        | submitted s job' =>
          cases is_job
          exact ⟨s, List.mem_append_right _ (logged _ at_o)⟩
        | served s entry => cases is_job
    · exact before.jobs j (List.mem_append_right _ working)
  · intro k c' found job result mem
    rcases found_update found with ⟨rfl, replaced⟩ | other
    · exact before.results k c there job result (fewer c' replaced job result mem)
    · exact before.results k c' other job result mem

theorem Sourced.post (sourced : w.Sourced L trace) {id : Nat} {t : Task J R}
    {working : List (Nat × J)} (sub : working ⊆ w.working)
    (origin : ∀ job result, t = .finish job result →
      (∃ s, (id, .did (.submitted s job)) ∈ trace) ∧ ∃ oracle b, result = L.verify oracle b job) :
    ({ w with working := working }.post id t).Sourced L trace := by
  have jobs : ∀ j ∈ w.queue ++ working, ∃ s, (j.1, .did (.submitted s j.2)) ∈ trace := by
    intro j mem
    rcases List.mem_append.mp mem with queued | busy
    · exact sourced.jobs j (List.mem_append_left _ queued)
    · exact sourced.jobs j (List.mem_append_right _ (sub busy))
  unfold World.post
  cases there : w.conns id with
  | none => exact ⟨jobs, sourced.results⟩
  | some c =>
    refine ⟨jobs, ?_⟩
    intro k c' found job result mem
    rcases found_update found with ⟨rfl, ⟨⟩⟩ | other
    · rcases List.mem_append.mp mem with old | new
      · exact sourced.results k c there job result old
      · exact origin job result (List.mem_singleton.mp new).symm
    · exact sourced.results k c' other job result mem

theorem Move.sourced (sourced : w.Sourced L trace) (move : Move L w runs w' log) :
    w'.Sourced L (trace ++ log) ∧ ∀ id s job result, (id, .finished s job result) ∈ log →
      (∃ s', (id, .did (.submitted s' job)) ∈ trace) ∧
        ∃ oracle b, result = L.verify oracle b job := by
  have before := sourced.mono log
  cases move with
  | idle => exact ⟨before, by simp⟩
  | accept input =>
    refine ⟨⟨before.jobs, ?_⟩, by simp⟩
    intro id c found job result mem
    rcases found_update found with ⟨-, ⟨⟩⟩ | other
    · cases mem
    · exact before.results id c other job result mem
  | serve id input c s tasks there seen rest =>
    refine ⟨sourced.replace there (L.traffic input w.backend s) _ _ _ ?_ ?_, ?_⟩
    · intro n mem
      exact List.mem_map_of_mem mem
    · intro c' kept job result mem
      split at kept
      · rename_i stays
        cases kept
        rcases rest with same | woken | gone
        · rw [same]
          exact mem
        · rw [woken]
          exact List.mem_cons_of_mem _ mem
        · exact absurd stays gone
      · cases kept
    · intro k s job result mem
      obtain ⟨-, n, -, ⟨⟩⟩ := mem_map_did mem
  | finish id input c job result tasks there first stays =>
    refine ⟨sourced.replace there (L.traffic input w.backend c.state) _ _ _ ?_ ?_, ?_⟩
    · intro n mem
      exact List.mem_append_left _ (List.mem_map_of_mem mem)
    · rintro _ ⟨⟩ job' result' mem
      rw [first]
      rcases List.mem_append.mp mem with old | new
      · exact List.mem_cons_of_mem _ old
      · have after := List.mem_singleton.mp new
        unfold Task.after at after
        split at after <;> cases after
    · intro k s job' result' mem
      rcases List.mem_append.mp mem with early | late
      · obtain ⟨-, n, -, ⟨⟩⟩ := mem_map_did early
      · cases List.mem_singleton.mp late
        exact sourced.results id c there job result (by rw [first]; exact List.mem_cons_self)
  | take job queue first =>
    refine ⟨⟨?_, before.results⟩, by simp⟩
    intro j mem
    apply before.jobs
    rw [first]
    simp only [List.mem_append, List.mem_cons, List.not_mem_nil] at mem ⊢
    tauto
  | verified i id job oracle busy =>
    refine ⟨Sourced.post before (List.eraseIdx_subset) ?_, by simp⟩
    rintro job' result ⟨⟩
    have working : (id, job) ∈ w.queue ++ w.working :=
      List.mem_append_right _ (List.mem_of_getElem? busy)
    exact ⟨before.jobs (id, job) working, oracle, w.backend, rfl⟩
  | expire id =>
    refine ⟨Sourced.post before (List.Subset.refl _) ?_, by simp⟩
    rintro job result ⟨⟩
  | close id =>
    refine ⟨⟨before.jobs, ?_⟩, by simp⟩
    intro k c found job result mem
    rcases found_update found with ⟨-, ⟨⟩⟩ | other
    exact before.results k c other job result mem
  | external change => exact ⟨⟨before.jobs, before.results⟩, by simp⟩

theorem run_sourced (sourced : w.Sourced L trace) (events : List (Event ι ο β)) :
    (w.run L events).1.Sourced L (trace ++ (w.run L events).2) := by
  induction events generalizing w trace with
  | nil => simpa [run] using sourced
  | cons ev events ih =>
    have next := ((step_move L w ev).sourced sourced).1
    simpa only [run, List.append_assoc] using ih next

end

def flagged (flag : σ → Bool) (w : World β σ J R) (id : Nat) : Bool :=
  (w.conns id).any fun c => flag c.state

end World

/-- The flag of a connection is raised only along with something that `Grants` it. -/
structure Listener.RaisedBy (L : Listener ι ο β σ α J R) (flag : σ → Bool)
    (Grants : Obs σ α J R → Prop) : Prop where
  receive : ∀ input s, flag (L.receive input s) = flag s
  traffic : ∀ input b s, flag s = false → flag (L.traffic input b s).state = true →
    ∃ n ∈ (L.traffic input b s).log, Grants (.did n)
  finish : ∀ input b s job r, flag s = false → flag (L.finish input b s job r).state = true →
    Grants (.finished s job r)

namespace World

section
variable {L : Listener ι ο β σ α J R} {w w' : World β σ J R} {log : List (Nat × Obs σ α J R)}
  {runs : Option (Conn σ J R)} {flag : σ → Bool} {Grants : Obs σ α J R → Prop}

theorem flagged_update {id k : Nat} {conn : Option (Conn σ J R)}
    (same : w'.conns = Function.update w.conns k conn) (down : w.flagged flag id = false)
    (up : w'.flagged flag id = true) : id = k ∧ ∃ c, conn = some c ∧ flag c.state = true := by
  unfold flagged at down up
  rw [same] at up
  by_cases here : id = k
  · subst here
    rw [Function.update_self, Option.any_eq_true] at up
    exact ⟨rfl, up⟩
  · rw [Function.update_of_ne here, down] at up
    cases up

theorem flagged_post (id k : Nat) (t : Task J R) :
    (w.post k t).flagged flag id = w.flagged flag id := by
  unfold World.post
  split
  · rfl
  · rename_i c there
    by_cases here : id = k
    · subst here
      simp [flagged, put, there]
    · simp [flagged, put, here]

theorem Move.raised (raisedBy : L.RaisedBy flag Grants) (move : Move L w runs w' log) {id : Nat}
    (down : w.flagged flag id = false) (up : w'.flagged flag id = true) :
    (id = w.next ∧ ∃ input, flag (L.opened input w.backend) = true) ∨
      ∃ o, (id, o) ∈ log ∧ Grants o := by
  have unchanged {w' : World β σ J R} (same : w'.flagged flag id = w.flagged flag id)
      (up : w'.flagged flag id = true) : False := by
    rw [same, down] at up
    cases up
  have lowered {k : Nat} {c : Conn σ J R} (here : id = k) (there : w.conns k = some c) :
      flag c.state = false := by
    subst here
    simpa [flagged, there] using down
  cases move with
  | idle => exact (unchanged rfl up).elim
  | accept input =>
    obtain ⟨here, c, ⟨⟩, raised⟩ := flagged_update rfl down up
    exact Or.inl ⟨here, input, raised⟩
  | serve k input c s tasks there seen rest =>
    obtain ⟨here, c', kept, raised⟩ := flagged_update rfl down up
    have low : flag s = false := by
      rcases seen with rfl | rfl
      · exact lowered here there
      · rw [raisedBy.receive]
        exact lowered here there
    split at kept
    · cases kept
      obtain ⟨n, mem, grants⟩ := raisedBy.traffic input w.backend s low raised
      exact Or.inr ⟨.did n, here ▸ List.mem_map_of_mem mem, grants⟩
    · cases kept
  | finish k input c job result tasks there first stays =>
    obtain ⟨here, c', kept, raised⟩ := flagged_update rfl down up
    cases kept
    cases early : flag (L.traffic input w.backend c.state).state with
    | true =>
      obtain ⟨n, mem, grants⟩ := raisedBy.traffic input w.backend c.state (lowered here there) early
      exact Or.inr ⟨.did n, here ▸ List.mem_append_left _ (List.mem_map_of_mem mem), grants⟩
    | false =>
      refine Or.inr ⟨.finished _ job result, ?_, raisedBy.finish input _ _ job result early raised⟩
      rw [here]
      exact List.mem_append_right _ List.mem_cons_self
  | take job queue first => exact (unchanged rfl up).elim
  | verified i k job oracle busy =>
    rw [flagged_post] at up
    exact (unchanged rfl up).elim
  | expire k => exact (unchanged (flagged_post id k _) up).elim
  | close k =>
    obtain ⟨-, c, gone, -⟩ := flagged_update rfl down up
    cases gone
  | external change => exact (unchanged rfl up).elim

end

end World

end EventLoop
