import Tellstone.Lib.SwapDelete

/-! The registry of connections whose TLS handshake is not complete, and the sweep that closes
those that missed their deadline. -/
namespace Tellstone.Resp
open SwapDelete

/-- `address` tells entries apart. -/
structure PendingHandshake where
  address : Nat
  c : Nat
  tlsConn : Nat
  deadline : Nat
  deriving DecidableEq, Repr

/-- Set while the sweeper runs: a connection was closed, a handshake is complete. -/
structure Flags where
  done : Nat → Bool
  handshakeCompleted : Nat → Bool

namespace Flags

variable (f : Flags) (now : Nat)

def settled (p : PendingHandshake) : Bool := f.done p.address || f.handshakeCompleted p.tlsConn

def overdue (p : PendingHandshake) : Bool := !f.settled p && decide (p.deadline ≤ now)

def waiting (p : PendingHandshake) : Bool := !f.settled p && decide (now < p.deadline)

end Flags

/-- What a sweep leaves, the connections it closed one after the other, and its result. -/
structure Swept where
  pending : List PendingHandshake
  closes : List PendingHandshake
  closed : Nat
  deriving DecidableEq, Repr

def sweepFrom (f : Flags) (now : Nat) (pending : List PendingHandshake) (i : Nat) : Swept :=
  if within : i < pending.length then
    let p := pending[i]
    if f.done p.address || f.handshakeCompleted p.tlsConn then
      sweepFrom f now (swapDelete pending i) i
    else if now < p.deadline then sweepFrom f now pending (i + 1)
    else
      let rest := sweepFrom f now (swapDelete pending i) i
      { rest with closes := p :: rest.closes, closed := rest.closed + 1 }
  else ⟨pending, [], 0⟩
termination_by pending.length - i
decreasing_by
  all_goals have shorter := length_swapDelete within
  all_goals omega

/-- What the loop makes of the entries from `i` on; those before it stay. -/
structure SweptFrom (f : Flags) (now : Nat) (pending : List PendingHandshake) (i : Nat)
    (s : Swept) : Prop where
  kept : s.pending.Perm (pending.take i ++ (pending.drop i).filter (f.waiting now))
  closes : s.closes.Perm ((pending.drop i).filter (f.overdue now))
  closed : s.closed = s.closes.length

section
variable {f : Flags} {now : Nat} {pending : List PendingHandshake} {i : Nat} {s : Swept}

theorem SweptFrom.next (within : i < pending.length) (waits : f.waiting now pending[i] = true)
    (rest : SweptFrom f now pending (i + 1) s) : SweptFrom f now pending i s := by
  have early : f.overdue now pending[i] = false := by
    simp only [Flags.waiting, Flags.overdue, Bool.and_eq_true, decide_eq_true_eq] at waits ⊢
    simp [waits.1, waits.2]
  refine ⟨?_, ?_, rest.closed⟩
  · rw [List.drop_eq_getElem_cons within, List.filter_cons_of_pos waits, List.append_cons,
      List.take_append_getElem within]
    exact rest.kept
  · rw [List.drop_eq_getElem_cons within, List.filter_cons_of_neg (by simp [early])]
    exact rest.closes

theorem SweptFrom.removed (within : i < pending.length) (stays : f.waiting now pending[i] = false)
    (rest : SweptFrom f now (swapDelete pending i) i s) :
    s.pending.Perm (pending.take i ++ (pending.drop i).filter (f.waiting now)) ∧
      s.closes.Perm ((pending.drop (i + 1)).filter (f.overdue now)) := by
  obtain ⟨before, behind⟩ := swapDelete_at within
  constructor
  · rw [List.drop_eq_getElem_cons within, List.filter_cons_of_neg (by simp [stays])]
    refine rest.kept.trans ?_
    rw [before]
    exact (behind.filter _).append_left _
  · exact rest.closes.trans (behind.filter _)

end

theorem sweepFrom_spec (f : Flags) (now : Nat) (pending : List PendingHandshake) (i : Nat) :
    SweptFrom f now pending i (sweepFrom f now pending i) := by
  fun_induction sweepFrom f now pending i with
  | case1 pending i within p settled ih =>
    have stays : f.waiting now pending[i] = false := by simp [Flags.waiting, Flags.settled, p, settled]
    have dropped : f.overdue now pending[i] = false := by
      simp [Flags.overdue, Flags.settled, p, settled]
    obtain ⟨kept, closes⟩ := ih.removed within stays
    refine ⟨kept, ?_, ih.closed⟩
    rw [List.drop_eq_getElem_cons within, List.filter_cons_of_neg (by simp [dropped])]
    exact closes
  | case2 pending i within p live early ih =>
    exact ih.next within (by simp [Flags.waiting, Flags.settled, p, live, early])
  | case3 pending i within p live late rest ih =>
    have stays : f.waiting now pending[i] = false := by simp [Flags.waiting, p, late]
    have missed : f.overdue now pending[i] = true := by
      simpa [Flags.overdue, Flags.settled, p, live] using Nat.le_of_not_lt late
    obtain ⟨kept, closes⟩ := ih.removed within stays
    refine ⟨kept, ?_, by rw [ih.closed]; rfl⟩
    rw [List.drop_eq_getElem_cons within, List.filter_cons_of_pos missed]
    exact closes.cons _
  | case4 pending i beyond =>
    have none := Nat.le_of_not_lt beyond
    refine ⟨?_, ?_, rfl⟩
    · simp [List.take_of_length_le none, List.drop_eq_nil_of_le none]
    · simp [List.drop_eq_nil_of_le none]

/-- The registry, with the flags that its entries share with the event loops. -/
structure HandshakeSweeper where
  pending : List PendingHandshake
  flags : Flags
  allocated : Nat

/-- A connection goes to the TLS layer, a sweep, a close, or a complete handshake. -/
inductive SweeperEvent where
  | track (c tlsConn deadline : Nat)
  | sweep (now : Nat)
  | onClose (address : Nat)
  | handshakeCompleted (tlsConn : Nat)

def raise (flag : Nat → Bool) (id : Nat) : Nat → Bool := fun other => decide (other = id) || flag other

namespace HandshakeSweeper

def track (h : HandshakeSweeper) (c tlsConn deadline : Nat) : HandshakeSweeper :=
  { h with
    pending := h.pending ++ [⟨h.allocated, c, tlsConn, deadline⟩]
    allocated := h.allocated + 1 }

def sweep (h : HandshakeSweeper) (now : Nat) : Swept := sweepFrom h.flags now h.pending 0

def after (h : HandshakeSweeper) : SweeperEvent → HandshakeSweeper
  | .track c tlsConn deadline => h.track c tlsConn deadline
  | .sweep now => { h with pending := (h.sweep now).pending }
  | .onClose address => { h with flags := { h.flags with done := raise h.flags.done address } }
  | .handshakeCompleted tlsConn =>
    { h with flags := { h.flags with
        handshakeCompleted := raise h.flags.handshakeCompleted tlsConn } }

def closes (h : HandshakeSweeper) : SweeperEvent → List PendingHandshake
  | .sweep now => (h.sweep now).closes
  | _ => []

def afterAll (h : HandshakeSweeper) (events : List SweeperEvent) : HandshakeSweeper :=
  events.foldl after h

def closesOf (h : HandshakeSweeper) : List SweeperEvent → List PendingHandshake
  | [] => []
  | event :: events => h.closes event ++ (h.after event).closesOf events

theorem sweep_spec (h : HandshakeSweeper) (now : Nat) :
    (h.sweep now).pending.Perm (h.pending.filter (h.flags.waiting now)) ∧
      (h.sweep now).closes.Perm (h.pending.filter (h.flags.overdue now)) ∧
      (h.sweep now).closed = (h.pending.filter (h.flags.overdue now)).length := by
  have spec := sweepFrom_spec h.flags now h.pending 0
  have closes : (h.sweep now).closes.Perm (h.pending.filter (h.flags.overdue now)) := spec.closes
  exact ⟨spec.kept, closes, spec.closed.trans closes.length_eq⟩

theorem after_completed {h : HandshakeSweeper} {tlsConn : Nat}
    (complete : h.flags.handshakeCompleted tlsConn = true) (event : SweeperEvent) :
    (h.after event).flags.handshakeCompleted tlsConn = true := by
  cases event with
  | track c tlsConn deadline => exact complete
  | sweep now => exact complete
  | onClose address => exact complete
  | handshakeCompleted other => simp [after, raise, complete]

theorem closes_incomplete {h : HandshakeSweeper} {event : SweeperEvent} {p : PendingHandshake}
    (closed : p ∈ h.closes event) : h.flags.handshakeCompleted p.tlsConn = false := by
  cases event with
  | sweep now =>
    have missed := (h.sweep_spec now).2.1.mem_iff.mp closed
    simp only [List.mem_filter, Flags.overdue, Flags.settled, Bool.and_eq_true,
      Bool.not_eq_true', Bool.or_eq_false_iff] at missed
    exact missed.2.1.2
  | track c tlsConn deadline => cases closed
  | onClose address => cases closed
  | handshakeCompleted tlsConn => cases closed

theorem closesOf_incomplete {h : HandshakeSweeper} {tlsConn : Nat}
    (complete : h.flags.handshakeCompleted tlsConn = true) (events : List SweeperEvent) :
    ∀ p ∈ h.closesOf events, p.tlsConn ≠ tlsConn := by
  induction events generalizing h with
  | nil => simp [closesOf]
  | cons event events ih =>
    intro p closed
    rcases List.mem_append.mp closed with now | later
    · rintro rfl
      rw [closes_incomplete now] at complete
      cases complete
    · exact ih (after_completed complete event) p later

/-- A sweep closes what is overdue, each connection once, counts it, and keeps what has time; a
connection whose handshake is complete is not closed by any later sweep. -/
theorem sweep_exact (h : HandshakeSweeper) (before : List SweeperEvent) :
    (∀ now, ((h.afterAll before).sweep now).pending.Perm
        ((h.afterAll before).pending.filter ((h.afterAll before).flags.waiting now)) ∧
      ((h.afterAll before).sweep now).closes.Perm
        ((h.afterAll before).pending.filter ((h.afterAll before).flags.overdue now)) ∧
      ((h.afterAll before).sweep now).closed =
        ((h.afterAll before).pending.filter ((h.afterAll before).flags.overdue now)).length) ∧
    (∀ now, ∀ p ∈ ((h.afterAll before).after (.sweep now)).pending,
      (h.afterAll before).flags.settled p = false ∧ now < p.deadline) ∧
    (∀ tlsConn events,
      ∀ p ∈ ((h.afterAll before).after (.handshakeCompleted tlsConn)).closesOf events,
        p.tlsConn ≠ tlsConn) := by
  refine ⟨fun now => sweep_spec _ now, fun now p kept => ?_, fun tlsConn events => ?_⟩
  · have waits := ((h.afterAll before).sweep_spec now).1.mem_iff.mp kept
    simpa [Flags.waiting] using (List.mem_filter.mp waits).2
  · exact closesOf_incomplete (by simp [after, raise]) events

end HandshakeSweeper

end Tellstone.Resp
