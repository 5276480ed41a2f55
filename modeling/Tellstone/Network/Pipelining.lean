import Tellstone.Frontend.Pipelining
import Tellstone.Network.Gate

/-! Where the binary listener stops in a buffer, and that it leaves no complete frame there
unless it has to wait. -/
namespace Tellstone.Network
open ByteStream EventLoop Frontend

namespace Server

section
variable {σ : Type}

def complete (srv : Server σ) (buf : Bytes) : Bool := (decode buf srv.maxMsgSize).isOk

theorem complete_eq_false {srv : Server σ} {buf : Bytes}
    (short : decode buf srv.maxMsgSize = .error .shortRead) : srv.complete buf = false := by
  rw [complete, short]
  rfl

theorem Framed.ending {srv : Server σ} {io : Io σ} {p : Pass σ Message} {buf : Bytes}
    {r : Pass σ Message × Bytes × Action} (framed : Framed srv io p buf r) : r.2.1 <:+ buf := by
  have tail {p : Pass σ Message} {buf rest : Bytes} {msg : Message} {d : Dispatched σ}
      (next : Next srv io p buf msg rest d) : rest <:+ buf := by
    obtain ⟨payloadLen, -, rfl⟩ := next.decoded
    exact List.drop_suffix _ _
  induction framed with
  | waits short => exact List.suffix_rfl
  | stuck beyond => exact List.suffix_rfl
  | refused => exact List.suffix_rfl
  | handed next submitted => exact tail next
  | unwritten next answered => exact tail next
  | closes next answered => exact tail next
  | goesOn next answered stays later ih => exact ih.trans (tail next)

theorem Framed.stops {srv : Server σ} {io : Io σ} {p : Pass σ Message} {buf : Bytes}
    {r : Pass σ Message × Bytes × Action} (framed : Framed srv io p buf r)
    (idle : p.state.authPending = false) (none : r.2.2 = .none) :
    r.1.state.authPending = true ∨ decode r.2.1 srv.maxMsgSize = .error .shortRead := by
  induction framed with
  | waits short => exact Or.inr short
  | handed next submitted => exact Or.inl (next.pending submitted idle)
  | goesOn next answered stays later ih => exact ih (next.idle answered idle) none
  | _ => cases none

theorem serveFrames_clear (srv : Server σ) (io : Io σ) {p : Pass σ Message} {buf : Bytes}
    (buffer : p.state.buffer = buf) (none : (srv.serveFrames io p buf).2 = .none) :
    (srv.serveFrames io p buf).1.state.Clear srv.complete ∧
      ∃ n, (srv.serveFrames io p buf).1.state.tls = p.state.tls.map fun t => t.discard n := by
  unfold serveFrames at none ⊢
  by_cases pending : p.state.authPending = true
  · rw [if_pos pending]
    refine ⟨Or.inl pending, 0, ?_⟩
    cases p.state.tls <;> rfl
  rw [if_neg pending] at none ⊢
  have framed : Framed srv io p buf _ := srv.frames_framed io (Nat.le_refl buf.length)
  obtain ⟨tls, inbound⟩ := framed.tls
  have stops := framed.stops (eq_false_of_ne_true pending)
  have tail := framed.ending
  generalize srv.frames io buf.length p buf = r at *
  simp only at none ⊢
  split at none
  · rename_i stopped
    exact absurd none stopped
  rename_i through
  rw [if_neg through]
  have left : (r.1.state.discard (buf.length - r.2.1.length)).buffer = r.2.1 := by
    have kept : r.1.state.buffer = buf := by
      rw [← buffer, ConnState.buffer, tls, inbound, ConnState.buffer]
    rw [ConnState.discard_buffer, kept, ← List.suffix_iff_eq_drop.mp tail]
  constructor
  · rcases stops (not_not.mp through) with waits | short
    · exact Or.inl ((r.1.state.discard_rebuffered _).authPending.trans waits)
    · exact Or.inr (left.symm ▸ complete_eq_false short)
  · refine ⟨buf.length - r.2.1.length, ?_⟩
    rw [← tls]
    unfold ConnState.discard
    cases r.1.state.tls <;> rfl

theorem loops (srv : Server σ) (io : Io σ) :
    Loops srv.complete some (srv.handleDecryptedFrames io) (srv.onTrafficTLS io) where
  empty := rfl
  spent _ := rfl
  refused fuel p t _ refused := by cases refused
  turns fuel p t t' encrypted grown := by
    cases grown
    simp [onTrafficTLS, encrypted]
  grows t t' grown := by
    cases grown
    exact ⟨t.bufCap, t.fits, t.positive, rfl⟩
  cramped t t' u grown noRoom same cap := by
    rintro ⟨_, ⟨⟩, less⟩
    rw [same, cap, noRoom] at less
    exact Nat.lt_irrefl _ less
  serves p t q encrypted unmarked served := by
    have leads := serveFrames_leads io t.readBuf (.refl p : Leads srv.dispatch p (p, .none))
    have clears := srv.serveFrames_clear io (ConnState.buffer_some encrypted)
      (congrArg Prod.snd served)
    have same : srv.serveFrames io p t.readBuf = (q, .none) := served
    rw [same] at leads clears
    obtain ⟨clear, n, left⟩ := clears
    refine ⟨leads.stays rfl unmarked, clear, t.discard n, ?_, rfl⟩
    rw [left, encrypted]
    rfl

theorem drains (srv : Server σ) : Drains srv.frontEnd srv.complete some := by
  have guarded := @guarded σ srv (fun _ => True) fun _ _ _ => trivial
  refine ⟨guarded.oneAtATime, fun _ _ => ⟨⟨rfl, rfl⟩, ConnState.opened_clear rfl ..⟩, ?_, ?_⟩
  · intro io core st unmarked shaken none
    refine ⟨guarded.stays_open unmarked none, ?_⟩
    have traffic : srv.frontEnd.onTraffic io core st = srv.onTraffic io core st := rfl
    rw [traffic] at none ⊢
    unfold onTraffic at none ⊢
    simp only [Pass.ends] at none ⊢
    cases encrypted : st.tls with
    | none =>
      simp only [encrypted] at none ⊢
      have plain : (Pass.start core st : Pass σ Message).state.buffer = st.inbound := by
        rw [ConnState.buffer, show (Pass.start core st : Pass σ Message).state.tls = _ from encrypted]
        rfl
      obtain ⟨clear, n, left⟩ := srv.serveFrames_clear io plain none
      have plaintext := left.trans (congrArg (Option.map fun t => Tls.discard t n) encrypted)
      exact ⟨ConnState.shaken_of_plaintext plaintext, Or.inl clear⟩
    | some t =>
      simp only [encrypted] at none ⊢
      exact (srv.loops io).clears encrypted unmarked shaken none
  · intro io core st shaken stranded
    have traffic : srv.frontEnd.onTraffic io core st = srv.onTraffic io core st := rfl
    obtain ⟨t, here, -⟩ := stranded.2
    have encrypted : st.tls = some t := here
    rw [traffic]
    simp only [onTraffic, encrypted, Pass.ends]
    exact (srv.loops io).strands t.available (p := .start core st) shaken stranded

end

end Server

end Tellstone.Network
