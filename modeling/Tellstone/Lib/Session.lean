import Tellstone.Lib.EventLoop

/-! One connection of an event loop: what a step of the loop is to it, and what holds of it
along every run. -/
namespace EventLoop

variable {ι ο β σ α J R : Type}

def own (id : Nat) (trace : List (Nat × Obs σ α J R)) : List (Obs σ α J R) :=
  (trace.filter fun o => decide (o.1 = id)).map Prod.snd

theorem own_append (id : Nat) (front back : List (Nat × Obs σ α J R)) :
    own id (front ++ back) = own id front ++ own id back := by
  simp only [own, List.filter_append, List.map_append]

theorem own_self (id : Nat) (notes : List (Note σ α J)) :
    own id (notes.map fun n => ((id, .did n) : Nat × Obs σ α J R)) = notes.map .did := by
  simp [own, List.filter_map, Function.comp_def]

theorem own_other {id k : Nat} (other : k ≠ id) (notes : List (Note σ α J)) :
    own id (notes.map fun n => ((k, .did n) : Nat × Obs σ α J R)) = [] := by
  simp [own, List.filter_map, Function.comp_def, other]

def arrivals {γ : Type} (content : ι → List γ) (id : Nat) (events : List (Event ι ο β)) : List γ :=
  events.flatMap fun
    | .readable k input => if k = id then content input else []
    | _ => []

section
variable {γ : Type} (content : ι → List γ)

theorem arrivals_append (id : Nat) (front back : List (Event ι ο β)) :
    arrivals content id (front ++ back) = arrivals content id front ++ arrivals content id back :=
  List.flatMap_append

theorem arrivals_readable (id : Nat) (input : ι) :
    arrivals content id [(.readable id input : Event ι ο β)] = content input := by
  simp [arrivals]

theorem arrivals_other {id : Nat} {ev : Event ι ο β} (unread : ∀ input, ev ≠ .readable id input) :
    arrivals content id [ev] = [] := by
  cases ev with
  | readable k input =>
    have other : k ≠ id := fun same => unread input (by rw [same])
    simp [arrivals, other]
  | _ => rfl

end

def Served.left (r : Served β σ α J) (tasks : List (Task J R)) : Option (Conn σ J R) :=
  if r.action = .none then some ⟨r.state, tasks⟩ else none

theorem Served.mem_left {r : Served β σ α J} {tasks : List (Task J R)} {c : Conn σ J R}
    (here : c ∈ r.left tasks) : r.action = .none ∧ c = ⟨r.state, tasks⟩ := by
  unfold left at here
  split at here
  · rename_i stays
    cases here
    exact ⟨stays, rfl⟩
  · cases here

namespace World

inductive Turn (L : Listener ι ο β σ α J R) (w : World β σ J R) (id : Nat) :
    Event ι ο β → Option (Conn σ J R) → List (Obs σ α J R) → Prop where
  | idle {ev : Event ι ο β} (unread : ∀ input, ev ≠ .readable id input) :
      Turn L w id ev (w.conns id) []
  | refused (input : ι) (gone : w.conns id = none) : Turn L w id (.readable id input) none []
  | readable (input : ι) (c : Conn σ J R) (there : w.conns id = some c) :
      Turn L w id (.readable id input)
        ((L.traffic input w.backend (L.receive input c.state)).left c.tasks)
        ((L.traffic input w.backend (L.receive input c.state)).log.map .did)
  | wake (input : ι) (c : Conn σ J R) (tasks : List (Task J R)) (there : w.conns id = some c)
      (first : c.tasks = .wake :: tasks) :
      Turn L w id (.task id input) ((L.traffic input w.backend c.state).left tasks)
        ((L.traffic input w.backend c.state).log.map .did)
  | broken (input : ι) (c : Conn σ J R) (job : J) (result : R) (tasks : List (Task J R))
      (there : w.conns id = some c) (first : c.tasks = .finish job result :: tasks)
      (ends : (L.traffic input w.backend c.state).action ≠ .none) :
      Turn L w id (.task id input) none ((L.traffic input w.backend c.state).log.map .did)
  | finish (input : ι) (c : Conn σ J R) (job : J) (result : R) (tasks : List (Task J R))
      (there : w.conns id = some c) (first : c.tasks = .finish job result :: tasks)
      (stays : (L.traffic input w.backend c.state).action = .none) :
      Turn L w id (.task id input)
        (let r := L.traffic input w.backend c.state
        let f := L.finish input r.backend r.state job result
        some ⟨f.state, tasks ++ [Task.after f.closes]⟩)
        ((L.traffic input w.backend c.state).log.map .did ++
          [.finished (L.traffic input w.backend c.state).state job result])
  | closed (input : ι) (c : Conn σ J R) (tasks : List (Task J R)) (there : w.conns id = some c)
      (first : c.tasks = .close :: tasks) : Turn L w id (.task id input) none []
  | verified (i : Nat) (job : J) (oracle : ο) (c : Conn σ J R) (there : w.conns id = some c)
      (busy : w.working[i]? = some (id, job)) :
      Turn L w id (.verified i oracle)
        (some ⟨c.state, c.tasks ++ [.finish job (L.verify oracle w.backend job)]⟩) []
  | expire (c : Conn σ J R) (there : w.conns id = some c) :
      Turn L w id (.expire id) (some ⟨c.state, c.tasks ++ [.close]⟩) []
  | hangup : Turn L w id (.hangup id) none []

theorem conns_post {w : World β σ J R} {id k : Nat} (t : Task J R) :
    (w.post k t).conns id =
      if k = id then (w.conns id).map fun c => ⟨c.state, c.tasks ++ [t]⟩ else w.conns id := by
  unfold post
  by_cases here : k = id
  · subst here
    cases there : w.conns k with
    | none => simp [there]
    | some c => simp [put]
  · rw [if_neg here]
    split
    · rfl
    · exact Function.update_of_ne (Ne.symm here) _ _

theorem conns_serve (L : Listener ι ο β σ α J R) (w : World β σ J R) (id : Nat) (input : ι)
    (s : σ) (tasks : List (Task J R)) :
    (w.serve L id input s tasks).1.conns id = (L.traffic input w.backend s).left tasks :=
  Function.update_self _ _ _

theorem serve_other (L : Listener ι ο β σ α J R) (w : World β σ J R) {id k : Nat} (other : k ≠ id)
    (input : ι) (s : σ) (tasks : List (Task J R)) :
    (w.serve L k input s tasks).1.conns id = w.conns id ∧
      own id (w.serve L k input s tasks).2 = [] :=
  ⟨Function.update_of_ne (Ne.symm other) _ _, own_other other _⟩

theorem step_wake (L : Listener ι ο β σ α J R) {w : World β σ J R} {id : Nat} {c : Conn σ J R}
    (there : w.conns id = some c) {tasks : List (Task J R)} (first : c.tasks = .wake :: tasks)
    (input : ι) :
    (w.step L (.task id input)).1.conns id = (L.traffic input w.backend c.state).left tasks := by
  simp only [step, there, runTask, first, conns_serve]

theorem runTask_other (L : Listener ι ο β σ α J R) (w : World β σ J R) {id k : Nat}
    (other : k ≠ id) (input : ι) (c : Conn σ J R) :
    (w.runTask L k input c).1.conns id = w.conns id ∧ own id (w.runTask L k input c).2 = [] := by
  unfold runTask
  split
  · exact ⟨rfl, rfl⟩
  · exact ⟨Function.update_of_ne (Ne.symm other) _ _, rfl⟩
  · exact w.serve_other L other input c.state _
  · rename_i job result tasks first
    obtain ⟨same, unseen⟩ := w.serve_other L other input c.state tasks
    simp only
    split
    · exact ⟨same, unseen⟩
    · refine ⟨(Function.update_of_ne (Ne.symm other) _ _).trans same, ?_⟩
      rw [own_append, unseen]
      simp [own, other]

theorem runTask_turn (L : Listener ι ο β σ α J R) {w : World β σ J R} {id : Nat} {c : Conn σ J R}
    (there : w.conns id = some c) (input : ι) :
    Turn L w id (.task id input) ((w.runTask L id input c).1.conns id)
      (own id (w.runTask L id input c).2) := by
  rcases first : c.tasks with _ | ⟨t, tasks⟩
  · simp only [runTask, first]
    exact .idle (fun _ same => by cases same)
  cases t with
  | close =>
    simp only [runTask, first, put, Function.update_self]
    exact .closed input c tasks there first
  | wake =>
    simp only [runTask, first, conns_serve]
    rw [serve, own_self]
    exact .wake input c tasks there first
  | finish job result =>
    have left := w.conns_serve L id input c.state tasks
    simp only [runTask, first]
    by_cases stays : (L.traffic input w.backend c.state).action = .none
    · rw [Served.left, if_pos stays] at left
      simp only [left, put, Function.update_self, own_append]
      rw [serve, own_self]
      have last : own id [((id, .finished (L.traffic input w.backend c.state).state job result) :
          Nat × Obs σ α J R)] =
            [.finished (L.traffic input w.backend c.state).state job result] := by
        simp [own]
      rw [last]
      exact .finish input c job result tasks there first stays
    · rw [Served.left, if_neg stays] at left
      simp only [left]
      rw [serve, own_self]
      exact .broken input c job result tasks there first stays

theorem Turn.elsewhere {L : Listener ι ο β σ α J R} {w : World β σ J R} {id : Nat}
    {ev : Event ι ο β} {conn : Option (Conn σ J R)} {seen : List (Obs σ α J R)}
    (same : conn = w.conns id ∧ seen = []) (unread : ∀ input, ev ≠ .readable id input) :
    Turn L w id ev conn seen := by
  obtain ⟨rfl, rfl⟩ := same
  exact .idle unread

theorem readable_turn (L : Listener ι ο β σ α J R) (w : World β σ J R) (id k : Nat) (input : ι) :
    Turn L w id (.readable k input) ((w.step L (.readable k input)).1.conns id)
      (own id (w.step L (.readable k input)).2) := by
  by_cases here : k = id
  · subst here
    cases there : w.conns k with
    | none =>
      simp only [step, there]
      exact .refused input there
    | some c =>
      simp only [step, there, conns_serve]
      rw [serve, own_self]
      exact .readable input c there
  · refine .elsewhere ?_ (fun _ same => by cases same; exact here rfl)
    simp only [step]
    split
    · exact ⟨rfl, rfl⟩
    · exact w.serve_other L here input _ _

theorem task_turn (L : Listener ι ο β σ α J R) (w : World β σ J R) (id k : Nat) (input : ι) :
    Turn L w id (.task k input) ((w.step L (.task k input)).1.conns id)
      (own id (w.step L (.task k input)).2) := by
  by_cases here : k = id
  · subst here
    cases there : w.conns k with
    | none =>
      simp only [step, there]
      exact .elsewhere ⟨there.symm, rfl⟩ (fun _ same => by cases same)
    | some c =>
      simp only [step, there]
      exact runTask_turn L there input
  · refine .elsewhere ?_ (fun _ same => by cases same)
    simp only [step]
    split
    · exact ⟨rfl, rfl⟩
    · exact w.runTask_other L here input _

theorem post_turn {L : Listener ι ο β σ α J R} {w : World β σ J R} {id k : Nat}
    {ev : Event ι ο β} {t : Task J R} (unread : ∀ input, ev ≠ .readable id input)
    (queued : ∀ c, k = id → w.conns id = some c →
      Turn L w id ev (some ⟨c.state, c.tasks ++ [t]⟩) []) :
    Turn L w id ev ((w.post k t).conns id) [] := by
  rw [conns_post]
  split
  · rename_i here
    cases there : w.conns id with
    | none => exact .elsewhere ⟨there.symm, rfl⟩ unread
    | some c => exact queued c here there
  · exact .idle unread

theorem step_turn (L : Listener ι ο β σ α J R) {w : World β σ J R} {id : Nat}
    (known : id < w.next) (ev : Event ι ο β) :
    Turn L w id ev ((w.step L ev).1.conns id) (own id (w.step L ev).2) := by
  cases ev with
  | accept input =>
    exact .elsewhere ⟨Function.update_of_ne (Nat.ne_of_lt known) _ _, rfl⟩
      (fun _ same => by cases same)
  | readable k input => exact readable_turn L w id k input
  | take =>
    refine .elsewhere ?_ (fun _ same => by cases same)
    simp only [step]
    split
    · exact ⟨rfl, rfl⟩
    · exact ⟨rfl, rfl⟩
  | verified i oracle =>
    simp only [step]
    split
    · exact .idle (fun _ same => by cases same)
    · rename_i k job busy
      -- the post starts from a world whose workers have one job less
      have posted : (({ w with working := w.working.eraseIdx i } : World β σ J R).post k
          (.finish job (L.verify oracle w.backend job))).conns id =
            (w.post k (.finish job (L.verify oracle w.backend job))).conns id := by
        rw [conns_post, conns_post]
      rw [posted]
      refine post_turn (fun _ same => by cases same) fun c here there => ?_
      subst here
      exact .verified i job oracle c there busy
  | task k input => exact task_turn L w id k input
  | expire k =>
    refine post_turn (fun _ same => by cases same) fun c here there => ?_
    subst here
    exact .expire c there
  | hangup k =>
    by_cases here : k = id
    · subst here
      simp only [step, put, Function.update_self]
      exact .hangup
    · exact .elsewhere ⟨Function.update_of_ne (Ne.symm here) _ _, rfl⟩
        (fun _ same => by cases same)
  | external change => exact .idle (fun _ same => by cases same)

theorem next_post (w : World β σ J R) (id : Nat) (t : Task J R) : (w.post id t).next = w.next := by
  unfold post
  split <;> rfl

theorem Move.next_le {L : Listener ι ο β σ α J R} {w w' : World β σ J R}
    {runs : Option (Conn σ J R)} {log : List (Nat × Obs σ α J R)} (move : Move L w runs w' log) :
    w.next ≤ w'.next := by
  cases move with
  | accept input => exact Nat.le_succ _
  | verified i id job oracle busy =>
    exact Nat.le_of_eq (next_post { w with working := w.working.eraseIdx i } id _).symm
  | expire id => exact Nat.le_of_eq (next_post w id _).symm
  | _ => exact Nat.le_refl _

theorem run_next_le (L : Listener ι ο β σ α J R) (w : World β σ J R) (events : List (Event ι ο β)) :
    w.next ≤ (w.run L events).1.next := by
  induction events generalizing w with
  | nil => exact Nat.le_refl _
  | cons ev events ih => exact Nat.le_trans (step_move L w ev).next_le (ih _)

def Along (L : Listener ι ο β σ α J R) (ok : World β σ J R → Event ι ο β → Prop) :
    World β σ J R → List (Event ι ο β) → Prop
  | _, [] => True
  | w, ev :: events => ok w ev ∧ Along L ok (w.step L ev).1 events

theorem run_append (L : Listener ι ο β σ α J R) (w : World β σ J R) (front back : List (Event ι ο β)) :
    (w.run L (front ++ back)).1 = ((w.run L front).1.run L back).1 := by
  induction front generalizing w with
  | nil => rfl
  | cons ev front ih => exact ih (w.step L ev).1

theorem along_iff {L : Listener ι ο β σ α J R} {ok : World β σ J R → Event ι ο β → Prop}
    {w : World β σ J R} {events : List (Event ι ο β)} :
    w.Along L ok events ↔
      ∀ n ev, events[n]? = some ev → ok (w.run L (events.take n)).1 ev := by
  induction events generalizing w with
  | nil => simp [Along]
  | cons first events ih =>
    rw [Along, ih]
    constructor
    · rintro ⟨now, later⟩ n ev here
      cases n with
      | zero =>
        cases here
        exact now
      | succ n => exact later n ev here
    · intro all
      exact ⟨all 0 first rfl, fun n ev here => all (n + 1) ev here⟩

def call (L : Listener ι ο β σ α J R) (w : World β σ J R) (id : Nat) :
    Event ι ο β → Option (Served β σ α J)
  | .readable k input =>
    if k = id then
      (w.conns id).map fun c => L.traffic input w.backend (L.receive input c.state)
    else none
  | .task k input =>
    if k = id then
      (w.conns id).bind fun c =>
        match c.tasks with
        | .wake :: _ | .finish _ _ :: _ => some (L.traffic input w.backend c.state)
        | _ => none
    else none
  | _ => none

end World

/-- The handlers keep `Inv` of a connection that they leave open, and do only what is `Good`. -/
structure Listener.Preserves (L : Listener ι ο β σ α J R) (Inv : σ → Prop)
    (Good : Note σ α J → Prop) : Prop where
  receive : ∀ input s, Inv s → Inv (L.receive input s)
  traffic : ∀ input b s, Inv s →
    (∀ n ∈ (L.traffic input b s).log, Good n) ∧
      ((L.traffic input b s).action = .none → Inv (L.traffic input b s).state)
  finish : ∀ input b s job r, Inv s → Inv (L.finish input b s job r).state

namespace World

variable {L : Listener ι ο β σ α J R} {Inv : σ → Prop} {Good : Note σ α J → Prop}
  {w : World β σ J R} {id : Nat}

theorem served_preserves {r : Served β σ α J}
    (kept : (∀ n ∈ r.log, Good n) ∧ (r.action = .none → Inv r.state)) (tasks : List (Task J R)) :
    (∀ c ∈ r.left tasks, Inv c.state) ∧
      ∀ n, (.did n : Obs σ α J R) ∈ r.log.map .did → Good n := by
  constructor
  · intro c left
    obtain ⟨stays, rfl⟩ := Served.mem_left left
    exact kept.2 stays
  · intro n mem
    obtain ⟨_, logged, ⟨⟩⟩ := List.mem_map.mp mem
    exact kept.1 n logged

theorem Turn.preserves (keeps : L.Preserves Inv Good) (inv : ∀ c ∈ w.conns id, Inv c.state)
    {ev : Event ι ο β} {conn : Option (Conn σ J R)} {log : List (Obs σ α J R)}
    (turn : w.Turn L id ev conn log) :
    (∀ c ∈ conn, Inv c.state) ∧ ∀ n, .did n ∈ log → Good n := by
  cases turn with
  | idle unread => exact ⟨inv, nofun⟩
  | refused input gone => exact ⟨nofun, nofun⟩
  | readable input c there =>
    exact served_preserves (keeps.traffic _ _ _ (keeps.receive _ _ (inv c there))) _
  | wake input c tasks there first =>
    exact served_preserves (keeps.traffic _ _ _ (inv c there)) _
  | broken input c job result tasks there first ends =>
    exact ⟨nofun, (served_preserves (keeps.traffic _ _ _ (inv c there)) tasks).2⟩
  | finish input c job result tasks there first stays =>
    have kept := keeps.traffic input w.backend c.state (inv c there)
    constructor
    · rintro _ ⟨⟩
      exact keeps.finish _ _ _ _ _ (kept.2 stays)
    · intro n mem
      rcases List.mem_append.mp mem with did | finished
      · exact (served_preserves kept tasks).2 n did
      · cases List.mem_singleton.mp finished
  | closed input c tasks there first => exact ⟨nofun, nofun⟩
  | verified i job oracle c there busy =>
    refine ⟨?_, nofun⟩
    rintro _ ⟨⟩
    exact inv c there
  | expire c there =>
    refine ⟨?_, nofun⟩
    rintro _ ⟨⟩
    exact inv c there
  | hangup => exact ⟨nofun, nofun⟩

theorem run_preserves (keeps : L.Preserves Inv Good) (known : id < w.next)
    (inv : ∀ c ∈ w.conns id, Inv c.state) (events : List (Event ι ο β)) :
    (∀ c ∈ (w.run L events).1.conns id, Inv c.state) ∧
      ∀ n, .did n ∈ own id (w.run L events).2 → Good n := by
  induction events generalizing w with
  | nil => exact ⟨inv, nofun⟩
  | cons ev events ih =>
    obtain ⟨next, now⟩ := (step_turn L known ev).preserves keeps inv
    obtain ⟨last, later⟩ := ih (Nat.lt_of_lt_of_le known (step_move L w ev).next_le) next
    refine ⟨last, fun n mem => ?_⟩
    have both : .did n ∈ own id ((w.step L ev).2 ++ ((w.step L ev).1.run L events).2) := mem
    rw [own_append] at both
    rcases List.mem_append.mp both with early | late
    · exact now n early
    · exact later n late

end World

/-- A connection in a run: what the loop did before it was accepted, and what from then on. -/
structure Life (ι ο β : Type) where
  backend : β
  earlier : List (Event ι ο β)
  input : ι
  events : List (Event ι ο β)

/-- The connection, if it is open, waits for no verification and has run all its tasks. -/
def Settled (pending : σ → Bool) (conn : Option (Conn σ J R)) : Prop :=
  ∀ c ∈ conn, pending c.state = false ∧ c.tasks = []

instance [DecidableEq J] [DecidableEq R] (pending : σ → Bool) (conn : Option (Conn σ J R)) :
    Decidable (Settled pending conn) :=
  inferInstanceAs (Decidable (∀ c ∈ conn, pending c.state = false ∧ c.tasks = []))

namespace Life

variable (L : Listener ι ο β σ α J R) (l : Life ι ο β)

def first : World β σ J R := ((World.start l.backend).run L l.earlier).1

def id : Nat := (l.first L).next

def accepted : World β σ J R := ((l.first L).step L (.accept l.input)).1

def last : World β σ J R := ((l.accepted L).run L l.events).1

def conn : Option (Conn σ J R) := (l.last L).conns (l.id L)

def seen : List (Obs σ α J R) := own (l.id L) ((l.accepted L).run L l.events).2

def upTo (n : Nat) : Life ι ο β := { l with events := l.events.take n }

variable {L}

theorem upTo_succ {l : Life ι ο β} {n : Nat} {ev : Event ι ο β} (here : l.events[n]? = some ev) :
    (l.upTo (n + 1)).last L = (((l.upTo n).last L).step L ev).1 := by
  obtain ⟨short, rfl⟩ := List.getElem?_eq_some_iff.mp here
  have split : (l.upTo (n + 1)).events = (l.upTo n).events ++ [l.events[n]] :=
    (List.take_append_getElem short).symm
  rw [last, split, World.run_append]
  rfl

theorem along_iff {l : Life ι ο β} {ok : World β σ J R → Event ι ο β → Prop} :
    (l.accepted L).Along L ok l.events ↔
      ∀ n ev, l.events[n]? = some ev → ok ((l.upTo n).last L) ev :=
  World.along_iff

theorem upTo_along {l : Life ι ο β} {ok : World β σ J R → Event ι ο β → Prop} {n : Nat}
    (along : ∀ m < n, ∀ ev, l.events[m]? = some ev → ok ((l.upTo m).last L) ev) :
    ((l.upTo n).accepted L).Along L ok (l.upTo n).events := by
  rw [along_iff]
  intro m ev here
  obtain ⟨short, -⟩ := List.getElem?_eq_some_iff.mp here
  have less : m < n := Nat.lt_of_lt_of_le short (List.length_take_le _ _)
  have there : l.events[m]? = some ev := by
    rwa [upTo, List.getElem?_take_of_lt less] at here
  have cut : (l.upTo n).upTo m = l.upTo m := by
    simp only [upTo, List.take_take, Nat.min_eq_left (Nat.le_of_lt less)]
  rw [cut]
  exact along m less ev there

theorem run_follows {pending : σ → Bool} (one : L.OneAtATime pending) {id : Nat}
    {ok : World β σ J R → Event ι ο β → Prop}
    {Inv : List (Event ι ο β) → List (Obs σ α J R) → Option (Conn σ J R) → Prop}
    (step : ∀ {w events seen ev conn log}, w.Tracked pending → ok w ev →
      Inv events seen (w.conns id) → w.Turn L id ev conn log →
      Inv (events ++ [ev]) (seen ++ log) conn)
    {w : World β σ J R} (tracked : w.Tracked pending) (known : id < w.next)
    {past : List (Event ι ο β)} {seen : List (Obs σ α J R)} (inv : Inv past seen (w.conns id))
    {events : List (Event ι ο β)} (along : w.Along L ok events) :
    Inv (past ++ events) (seen ++ own id (w.run L events).2) ((w.run L events).1.conns id) ∧
      (w.run L events).1.Tracked pending := by
  induction events generalizing w past seen with
  | nil => simpa [World.run, own] using ⟨inv, tracked⟩
  | cons ev events ih =>
    obtain ⟨now, later⟩ := along
    have next := ih ((World.step_move L w ev).tracked one tracked)
      (Nat.lt_of_lt_of_le known (World.step_move L w ev).next_le)
      (step tracked now inv (World.step_turn L known ev)) later
    rw [List.append_assoc, List.append_assoc, ← own_append] at next
    exact next

theorem follows {pending : σ → Bool} (one : L.OneAtATime pending) (l : Life ι ο β)
    (Inv : List (Event ι ο β) → List (Obs σ α J R) → Option (Conn σ J R) → Prop)
    {ok : World β σ J R → Event ι ο β → Prop}
    (opened : Inv [] [] (some ⟨L.opened l.input (l.first L).backend, []⟩))
    (step : ∀ {w events seen ev conn log}, w.Tracked pending → ok w ev →
      Inv events seen (w.conns (l.id L)) → w.Turn L (l.id L) ev conn log →
      Inv (events ++ [ev]) (seen ++ log) conn)
    (along : (l.accepted L).Along L ok l.events) :
    Inv l.events (l.seen L) (l.conn L) ∧ (l.last L).Tracked pending := by
  have tracked := World.run_tracked one (World.tracked_start pending l.backend) l.earlier
  have begun : (l.accepted L).conns (l.id L) =
      some ⟨L.opened l.input (l.first L).backend, []⟩ := Function.update_self _ _ _
  have known : l.id L < (l.accepted L).next := Nat.lt_succ_self _
  have inv : Inv [] [] ((l.accepted L).conns (l.id L)) := begun ▸ opened
  exact run_follows one step ((World.step_move L _ _).tracked one tracked) known inv along

theorem known (l : Life ι ο β) : l.id L < (l.last L).next := by
  have counted : (l.accepted L).next = l.id L + 1 := rfl
  have grows := (l.accepted L).run_next_le L l.events
  exact Nat.lt_of_lt_of_le (counted ▸ Nat.lt_succ_self _) grows

theorem preserves {Inv : σ → Prop} {Good : Note σ α J → Prop} (keeps : L.Preserves Inv Good)
    (l : Life ι ο β) (opened : Inv (L.opened l.input (l.first L).backend)) :
    ∀ c ∈ l.conn L, Inv c.state := by
  have begun : (l.accepted L).conns (l.id L) =
      some ⟨L.opened l.input (l.first L).backend, []⟩ := Function.update_self _ _ _
  refine (World.run_preserves keeps (Nat.lt_succ_self _) ?_ l.events).1
  rw [begun]
  rintro _ ⟨⟩
  exact opened

end Life

end EventLoop
