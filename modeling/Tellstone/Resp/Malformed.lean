import Tellstone.Resp.Dispatch
import Tellstone.Resp.Segmentation
import Tellstone.Resp.Upgrade

/-! Replies in front of a malformed frame, which closes the connection before they are written. -/
namespace Tellstone.Resp
open ByteStream EventLoop Frontend Incremental Resp2

variable {σ : Type}

namespace Server

/-- The replies of commands that were dispatched at the moments from `n` on, in order. -/
def replies (srv : Server σ) (io : Io σ) :
    Nat → List (Note ConnState (Entry σ (List Bytes)) AuthJob) → Bytes
  | _, [] => []
  | n, .served st e :: notes =>
    (srv.dispatch (io.moment n) st e.before e.frame).out ++ srv.replies io (n + 1) notes
  | n, .submitted _ _ :: notes => srv.replies io n notes

def answer (srv : Server σ) (io : Io σ) (p : Pass σ (List Bytes)) (args : List Bytes) :
    Dispatched σ :=
  srv.dispatch (io.moment p.count) p.state ((io.moment p.count).others p.core) args

def behind (srv : Server σ) (io : Io σ) (p : Pass σ (List Bytes)) (args : List Bytes) :
    Pass σ (List Bytes) :=
  p.take ((io.moment p.count).others p.core) args (srv.answer io p args)

/-- A command ends the loop: its AUTH goes to the workers, or a close is due behind its reply. -/
def StopsBefore (srv : Server σ) (io : Io σ) : Pass σ (List Bytes) → List (List Bytes) → Prop
  | _, [] => False
  | p, args :: commands =>
    (srv.answer io p args).job.isSome = true ∨
      (srv.answer io p args).state.closeAfterReply = true ∨
      srv.StopsBefore io (srv.behind io p args) commands

section
variable (srv : Server σ) (m : Moment σ) (st : ConnState) (core : Core σ) (args : List Bytes)

theorem submit_sent (job : AuthJob) (out : Bytes) :
    (Dispatched.submit m st core job out).state.sent = st.sent := by
  unfold Dispatched.submit
  split <;> rfl

theorem auth_sent : (srv.auth m st core args).state.sent = st.sent := by
  unfold auth
  split
  · rfl
  split
  · split
    · exact submit_sent m st core _ _
    · unfold authRBAC
      simp only
      split
      · rfl
      split
      · rfl
      split
      · rfl
      · exact submit_sent m st core _ _
  · rfl
  · simp only
    split
    · rfl
    · exact submit_sent m st core _ _

theorem dispatchSTARTTLS_sent : (srv.dispatchSTARTTLS st core args).state.sent = st.sent := by
  unfold dispatchSTARTTLS
  split
  · rfl
  split
  · rfl
  split <;> rfl

theorem execute_sent : (srv.execute m st core args).state.sent = st.sent := by
  unfold execute
  simp only
  split
  · rfl
  split
  · rfl
  split
  · unfold family
    split
    · rfl
    · split <;> rfl
  split
  · rfl
  split
  · exact srv.dispatchSTARTTLS_sent st core args
  · rfl

theorem dispatch_sent : (srv.dispatch m st core args).state.sent = st.sent := by
  unfold dispatch
  split
  · rfl
  split
  · exact srv.auth_sent m st core _
  split
  · exact srv.execute_sent m st core _
  split
  · exact srv.dispatchSTARTTLS_sent st core _
  split
  · exact srv.execute_sent m st core _
  · rfl

end

/-- Where a loop that began at `q` with these commands ahead stops. -/
structure Reached (srv : Server σ) (io : Io σ) (q : Processed σ) (commands : List (List Bytes))
    (r : Processed σ) : Prop where
  sent : r.pass.state.sent = q.pass.state.sent
  out : ∃ notes, r.pass.log = q.pass.log ++ notes ∧
    r.out = q.out ++ srv.replies io q.pass.count notes
  done : srv.StopsBefore io q.pass commands → r.stop = .done
  bad : ¬ srv.StopsBefore io q.pass commands → r.stop = .bad ∧ (r.out = q.out ↔ commands = [])

section
variable {srv : Server σ} {io : Io σ} {q : Processed σ} {args : List Bytes} {rest : Bytes}
  {commands : List (List Bytes)}

theorem replies_behind (srv : Server σ) (io : Io σ) (p : Pass σ (List Bytes)) (args : List Bytes) :
    ∃ notes, (srv.behind io p args).log = p.log ++ notes ∧
      ∀ later, srv.replies io p.count (notes ++ later) =
        (srv.answer io p args).out ++ srv.replies io (p.count + 1) later := by
  refine ⟨_, rfl, fun later => ?_⟩
  cases (srv.answer io p args).job <;> simp [replies, answer]

theorem Reached.last (stops : (srv.answer io q.pass args).job.isSome = true ∨
    (srv.answer io q.pass args).state.closeAfterReply = true) :
    srv.Reached io q (args :: commands)
      ⟨srv.behind io q.pass args, rest, q.out ++ (srv.answer io q.pass args).out, .done⟩ := by
  obtain ⟨notes, log, replied⟩ := srv.replies_behind io q.pass args
  have alone := replied []
  rw [List.append_nil, replies, List.append_nil] at alone
  have before : srv.StopsBefore io q.pass (args :: commands) := stops.imp_right Or.inl
  refine ⟨srv.dispatch_sent _ _ _ _, ⟨notes, log, ?_⟩, fun _ => rfl, fun on => absurd before on⟩
  rw [alone]

theorem Reached.next {r : Processed σ} (submits : ¬ (srv.answer io q.pass args).job.isSome = true)
    (closes : ¬ (srv.answer io q.pass args).state.closeAfterReply = true)
    (speaks : (srv.answer io q.pass args).out ≠ [])
    (reached : srv.Reached io ⟨srv.behind io q.pass args, rest,
      q.out ++ (srv.answer io q.pass args).out, .done⟩ commands r) :
    srv.Reached io q (args :: commands) r := by
  have stops : srv.StopsBefore io q.pass (args :: commands) ↔
      srv.StopsBefore io (srv.behind io q.pass args) commands := by
    simp only [StopsBefore, submits, closes, Bool.false_eq_true, false_or]
  obtain ⟨notes, log, replied⟩ := srv.replies_behind io q.pass args
  obtain ⟨more, log', out⟩ := reached.out
  refine ⟨reached.sent.trans (srv.dispatch_sent _ _ _ _), ⟨notes ++ more, ?_, ?_⟩, ?_, ?_⟩
  · rw [log', log, List.append_assoc]
  · rw [out, replied, List.append_assoc]
    rfl
  · rw [stops]
    exact reached.done
  · rw [stops]
    intro on
    refine ⟨(reached.bad on).1, fun silent => absurd ?_ speaks, fun none => by cases none⟩
    rw [out] at silent
    have nothing := congrArg List.length silent
    simp only [List.length_append] at nothing
    exact List.eq_nil_of_length_eq_zero (by omega)

end

section
variable {srv : Server σ} {io : Io σ} {p : Pass σ (List Bytes)}

end

end Server

end Tellstone.Resp
