import Tellstone.Lib.Ring
import Tellstone.Rbac.Listing

/-! The security log along a run: it shows the last events, in the order they came. -/
namespace Tellstone.Rbac
open ByteStream

/-- What is recorded: a rejected AUTH or a denied command. The policy may change in between. -/
inductive Event where
  | authFailure (now : Nat) (username remoteAddr reason : Bytes)
  | denied (now : Nat) (username remoteAddr cmd key : Bytes)
  | changed (change : Change)

def Event.recorded : Event → Option AuthLogEntry
  | .authFailure now username remoteAddr reason => some ⟨now, username, remoteAddr, reason⟩
  | .denied now username remoteAddr cmd key =>
    some ⟨now, username, remoteAddr, ascii "NOPERM command=" ++ cmd ++ ascii " key=" ++ key⟩
  | .changed _ => none

def buffered (history : List AuthLogEntry) : List AuthLogEntry :=
  history.drop (history.length - defaultAuthLogCap)

namespace Store

def seedAuthLog (s : Store) (entries : List AuthLogEntry) : Store :=
  if entries = [] then s else entries.foldl appendLocked s

def after (cost : Bytes → Bool) (s : Store) : Event → Store
  | .authFailure now username remoteAddr reason => s.logAuthFailure now username remoteAddr reason
  | .denied now username remoteAddr cmd key => s.incDenied.logDenied now username remoteAddr cmd key
  | .changed change => (s.change cost change).1

def afterAll (cost : Bytes → Bool) (s : Store) (events : List Event) : Store :=
  events.foldl (after cost) s

def Logged (s : Store) (history : List AuthLogEntry) : Prop :=
  s.log = [] ∧ s.logHead = 0 ∧ s.logLen = 0 ∧ history = [] ∨
    Ring.Holds defaultAuthLogCap s.log s.logHead s.logLen history

theorem new_logged (policy : Option PolicyStore) (allocated : Nat) :
    (new policy allocated).Logged [] :=
  Or.inl ⟨rfl, rfl, rfl, rfl⟩

variable {s : Store} {history : List AuthLogEntry}

theorem Logged.appendLocked (logged : s.Logged history) (entry : AuthLogEntry) :
    (s.appendLocked entry).Logged (history ++ [entry]) := by
  have holds : Ring.Holds defaultAuthLogCap
      (if s.log = [] then List.replicate defaultAuthLogCap ⟨0, [], [], []⟩ else s.log)
      s.logHead s.logLen history := by
    rcases logged with ⟨none, head, len, rfl⟩ | holds
    · rw [if_pos none, head, len]
      exact .empty (by decide) List.length_replicate
    · have some : s.log ≠ [] := by
        intro none
        have size := holds.size
        rw [none] at size
        cases size
      rw [if_neg some]
      exact holds
  have pushed := holds.push entry
  refine Or.inr ?_
  simp only [Store.appendLocked, holds.size]
  exact pushed

theorem Logged.seedAuthLog (logged : s.Logged history) (entries : List AuthLogEntry) :
    (s.seedAuthLog entries).Logged (history ++ entries) := by
  have folded : (entries.foldl Store.appendLocked s).Logged (history ++ entries) := by
    induction entries generalizing s history with
    | nil => simpa using logged
    | cons entry entries ih => simpa using ih (logged.appendLocked entry)
  unfold Store.seedAuthLog
  split
  · rename_i none
    rw [none, List.append_nil]
    exact logged
  · exact folded

theorem Logged.authLog (logged : s.Logged history) : s.authLog = buffered history := by
  rw [Store.authLog]
  rcases logged with ⟨-, -, len, rfl⟩ | holds
  · rw [if_pos len]
    rfl
  · have recent := holds.recent_eq ⟨0, [], [], []⟩
    rw [buffered, ← recent, Ring.recent]
    split
    · rename_i none
      rw [none]
      rfl
    · simp only [List.pure_def, List.bind_eq_flatMap, List.map_flatMap, List.map_cons, List.map_nil]
      exact List.map_eq_flatMap.symm

theorem Logged.of_same {s' : Store} (logged : s.Logged history)
    (same : s'.log = s.log ∧ s'.logHead = s.logHead ∧ s'.logLen = s.logLen) :
    s'.Logged history := by
  rw [Logged, same.1, same.2.1, same.2.2]
  exact logged

theorem change_log (cost : Bytes → Bool) (s : Store) (change : Change) :
    (s.change cost change).1.log = s.log ∧ (s.change cost change).1.logHead = s.logHead ∧
      (s.change cost change).1.logLen = s.logLen := by
  cases change with
  | createRole name rules =>
    simp only [Store.change, createRole]
    split
    · exact ⟨rfl, rfl, rfl⟩
    · split <;> exact ⟨rfl, rfl, rfl⟩
  | setUser username roleName passHash =>
    simp only [Store.change, setUser]
    split <;> exact ⟨rfl, rfl, rfl⟩
  | delUser username =>
    simp only [Store.change, delUser]
    split
    · exact ⟨rfl, rfl, rfl⟩
    · split
      · exact ⟨rfl, rfl, rfl⟩
      · split <;> exact ⟨rfl, rfl, rfl⟩
  | deleteRole name =>
    simp only [Store.change, deleteRole]
    split
    · exact ⟨rfl, rfl, rfl⟩
    · split <;> exact ⟨rfl, rfl, rfl⟩
  | reload fc =>
    simp only [Store.change, reload]
    split <;> exact ⟨rfl, rfl, rfl⟩

theorem Logged.after {cost : Bytes → Bool} (logged : s.Logged history) (event : Event) :
    (s.after cost event).Logged (history ++ event.recorded.toList) := by
  cases event with
  | authFailure now username remoteAddr reason =>
    exact Logged.appendLocked (logged.of_same ⟨rfl, rfl, rfl⟩) _
  | denied now username remoteAddr cmd key =>
    exact Logged.appendLocked (logged.of_same ⟨rfl, rfl, rfl⟩) _
  | changed change =>
    rw [Event.recorded, Option.toList_none, List.append_nil]
    exact logged.of_same (change_log cost s change)

theorem Logged.afterAll {cost : Bytes → Bool} (logged : s.Logged history) (events : List Event) :
    (s.afterAll cost events).Logged (history ++ events.filterMap Event.recorded) := by
  induction events generalizing s history with
  | nil =>
    rw [List.filterMap_nil, List.append_nil]
    exact logged
  | cons event events ih =>
    have rest : ((s.after cost event).afterAll cost events).Logged _ := ih (logged.after event)
    rw [List.append_assoc] at rest
    cases entry : event.recorded with
    | none =>
      rw [entry] at rest
      rw [List.filterMap_cons_none entry]
      exact rest
    | some e =>
      rw [entry] at rest
      rw [List.filterMap_cons_some entry]
      exact rest

end Store

end Tellstone.Rbac
