import Tellstone.Frontend.Pipelining
import Tellstone.Resp.Codec
import Tellstone.Resp.Effect

/-! Where the RESP listener stops in a buffer, and that it leaves no complete command there
unless it has to wait. -/
namespace Tellstone.Resp
open ByteStream EventLoop Frontend

def complete (buf : Bytes) : Bool := (parse buf).isOk

theorem complete_eq_false {buf : Bytes} (incomplete : parse buf = .error .incomplete) :
    complete buf = false := by
  rw [complete, incomplete]
  rfl

section
variable {σ : Type}

namespace Server

/-- Where the loop over a buffer stops, of a connection that was in state `st`. -/
inductive Stopped (st : ConnState) (q : Processed σ) : Prop where
  | waits (done : q.stop = .done) (tls : q.pass.state.tls = st.tls)
      (inbound : q.pass.state.inbound = st.inbound)
      (why : q.pass.state.authPending = true ∨ q.pass.state.closeAfterReply = true ∨
        parse q.rest = .error .incomplete)
  | refused (bad : q.stop = .bad)
      (why : q.pass.state.upgradeTLS = true ∨
        q.pass.state.authPending = false ∧ parse q.rest = .error .protocol)
  | upgraded (upgraded : q.stop = .upgraded) (tls : q.pass.state.tls = some .server)
      (why : st.upgradeTLS = true ∨ st.tls = none)

theorem Next.effect {srv : Server σ} {io : Io σ} {p : Pass σ (List Bytes)} {src rest : Bytes}
    {args : List Bytes} {d : Dispatched σ} (next : Next srv io p src args rest d) :
    Effect (srv.marks p.state args) (isAuth args)
      (isAuth args && srv.rejects ((io.moment p.count).others p.core) args) (isQuit args)
      p.state d :=
  next.dispatches ▸ srv.dispatch_effect _ _ _ _

theorem Looped.stopped {srv : Server σ} {io : Io σ} {p : Pass σ (List Bytes)} {src out : Bytes}
    {q : Processed σ} (looped : Looped srv io p src out q) (idle : p.state.authPending = false) :
    Stopped p.state q := by
  induction looped with
  | waits incomplete => exact .waits rfl rfl rfl (Or.inr (Or.inr incomplete))
  | refused malformed => exact .refused rfl (Or.inr ⟨idle, malformed⟩)
  | handed next submitted =>
    exact .waits rfl next.sound.tls next.effect.inbound (Or.inl (next.pending submitted idle))
  | unwritten next upgrade => exact .refused rfl (Or.inl upgrade)
  | upgraded next upgrade =>
    refine .upgraded rfl rfl ((next.effect.plain upgrade).imp_right fun allowed => ?_)
    simp only [marks, Bool.and_eq_true, Option.isNone_iff_eq_none] at allowed
    exact allowed.2.1
  | closes next plain closing =>
    exact .waits rfl next.sound.tls next.effect.inbound (Or.inr (Or.inl closing))
  | goesOn next answered plain stays later ih =>
    cases ih (next.idle answered idle) with
    | waits done same inbound why =>
      exact .waits done (same.trans next.sound.tls) (inbound.trans next.effect.inbound) why
    | refused bad why => exact .refused bad why
    | upgraded halted server why =>
      refine .upgraded halted server (Or.inr ?_)
      rcases why with marked | none
      · exact absurd (plain.symm.trans marked) Bool.false_ne_true
      · exact next.sound.tls.symm.trans none

theorem Looped.ending {srv : Server σ} {io : Io σ} {p : Pass σ (List Bytes)} {src out : Bytes}
    {q : Processed σ} (looped : Looped srv io p src out q) : q.rest <:+ src := by
  induction looped with
  | waits incomplete => exact List.suffix_rfl
  | refused malformed => exact List.suffix_rfl
  | handed next submitted => exact parse_stable.ending next.read
  | unwritten next upgrade => exact parse_stable.ending next.read
  | upgraded next upgrade => exact parse_stable.ending next.read
  | closes next plain closing => exact parse_stable.ending next.read
  | goesOn next answered plain stays later ih => exact ih.trans (parse_stable.ending next.read)

theorem processBuffer_stopped (srv : Server σ) (io : Io σ) {p : Pass σ (List Bytes)} (src : Bytes)
    (idle : p.state.authPending = false) : Stopped p.state (srv.processBuffer io p src) :=
  (srv.processBuffer_looped io p src).stopped idle

theorem processBuffer_ending (srv : Server σ) (io : Io σ) (p : Pass σ (List Bytes)) (src : Bytes) :
    (srv.processBuffer io p src).rest <:+ src :=
  (srv.processBuffer_looped io p src).ending

theorem flush_clear {io : Io σ} {src : Bytes} {q : Processed σ} (tail : q.rest <:+ src)
    (buffer : q.pass.state.buffer = src) (calm : q.rest = src → q.pass.state.closeAfterReply = false)
    (why : q.pass.state.authPending = true ∨ q.pass.state.closeAfterReply = true ∨
      parse q.rest = .error .incomplete) (none : (flush io src q).2 = .none) :
    (flush io src q).1.state.Clear complete := by
  by_cases consumed : src.length - q.rest.length = 0
  · have whole : q.rest = src := tail.eq_of_length_le (by omega)
    simp only [flush, if_pos consumed]
    rcases why with pending | closing | incomplete
    · exact Or.inl pending
    · exact absurd ((calm whole).symm.trans closing) Bool.false_ne_true
    · rw [whole, ← buffer] at incomplete
      exact Or.inr (complete_eq_false incomplete)
  · simp only [flush, if_neg consumed] at none ⊢
    split at none
    · cases none
    rename_i written
    rw [if_neg written]
    have sent := q.pass.state.flushed_rebuffered q.out (src.length - q.rest.length)
    rcases why with pending | closing | incomplete
    · exact Or.inl (sent.authPending.trans pending)
    · rw [if_pos closing] at none
      cases none
    · refine Or.inr (complete_eq_false ?_)
      have kept : (q.pass.state.send q.out).buffer = src := buffer
      rw [ConnState.discard_buffer, kept, ← List.suffix_iff_eq_drop.mp tail]
      exact incomplete

theorem processBuffer_calm (srv : Server σ) (io : Io σ) {p : Pass σ (List Bytes)} {src : Bytes}
    (unmarked : p.state.Open) (whole : (srv.processBuffer io p src).rest = src) :
    (srv.processBuffer io p src).pass.state.closeAfterReply = false := by
  rcases (srv.processBuffer_looped io p src).consumes with ⟨same, -⟩ | shorter
  · rw [same]
    exact unmarked.stays
  · exact absurd (congrArg List.length whole) (Nat.ne_of_lt shorter)

theorem flush_tls (io : Io σ) (src : Bytes) {q : Processed σ} {t : Tls}
    (encrypted : q.pass.state.tls = some t) :
    ∃ t', (flush io src q).1.state.tls = some t' ∧ t'.handshakeCompleted = t.handshakeCompleted := by
  unfold flush
  simp only
  split
  · exact ⟨t, encrypted, rfl⟩
  split
  · exact ⟨t, encrypted, rfl⟩
  · refine ⟨t.discard (src.length - q.rest.length), ?_, rfl⟩
    simp only [ConnState.discard, ConnState.send, encrypted]

theorem flush_inbound (io : Io σ) (src : Bytes) {q : Processed σ} {t : Tls}
    (encrypted : q.pass.state.tls = some t) :
    (flush io src q).1.state.inbound = q.pass.state.inbound := by
  unfold flush
  simp only
  split
  · rfl
  split
  · rfl
  · simp only [ConnState.discard, ConnState.send, encrypted]

theorem flush_plaintext (io : Io σ) (src : Bytes) {q : Processed σ}
    (plaintext : q.pass.state.tls = none) : (flush io src q).1.state.tls = none := by
  unfold flush
  simp only
  split
  · exact plaintext
  split
  · exact plaintext
  · simp only [ConnState.discard, ConnState.send, plaintext]

theorem handleDecryptedResp_none (srv : Server σ) (io : Io σ) {p q : Pass σ (List Bytes)} {t : Tls}
    (encrypted : p.state.tls = some t) (plain : p.state.upgradeTLS = false)
    (served : srv.handleDecryptedResp io p t = (q, .none)) :
    (p.state.authPending = true ∧ q = p) ∨
      (srv.processBuffer io p t.readBuf).stop = .done ∧
        (srv.processBuffer io p t.readBuf).pass.state.tls = some t ∧
        (srv.processBuffer io p t.readBuf).pass.state.inbound = p.state.inbound ∧
        ((srv.processBuffer io p t.readBuf).pass.state.authPending = true ∨
          (srv.processBuffer io p t.readBuf).pass.state.closeAfterReply = true ∨
          parse (srv.processBuffer io p t.readBuf).rest = .error .incomplete) ∧
        flush io t.readBuf (srv.processBuffer io p t.readBuf) = (q, .none) := by
  unfold handleDecryptedResp at served
  split at served
  · rename_i pending
    cases served
    exact Or.inl ⟨pending, rfl⟩
  rename_i idle
  have stopped := srv.processBuffer_stopped io t.readBuf (eq_false_of_ne_true idle)
  simp only at served
  generalize srv.processBuffer io p t.readBuf = r at *
  cases stopped with
  | refused bad why =>
    rw [if_pos bad] at served
    cases served
  | upgraded halted server why =>
    rcases why with marked | none
    · exact absurd (plain.symm.trans marked) Bool.false_ne_true
    · cases encrypted.symm.trans none
  | waits done same inbound why =>
    rw [if_neg (by rw [done]; exact fun halts => by cases halts)] at served
    exact Or.inr ⟨done, same.trans encrypted, inbound, why, served⟩

theorem handleDecryptedResp_serves (srv : Server σ) (io : Io σ) {p q : Pass σ (List Bytes)} {t : Tls}
    (encrypted : p.state.tls = some t) (unmarked : p.state.Open)
    (served : srv.handleDecryptedResp io p t = (q, .none)) :
    q.state.Open ∧ q.state.Clear complete ∧
      ∃ t', q.state.tls = some t' ∧ t'.handshakeCompleted = t.handshakeCompleted := by
  have leads := handleDecryptedResp_leads io t (.refl p : Leads srv.dispatch p (p, .none))
  rw [served] at leads
  refine ⟨leads.stays rfl unmarked, ?_⟩
  obtain ⟨pending, rfl⟩ | ⟨-, kept, -, why, flushed⟩ :=
    srv.handleDecryptedResp_none io encrypted unmarked.plain served
  · exact ⟨Or.inl pending, t, encrypted, rfl⟩
  · have tail := srv.processBuffer_ending io p t.readBuf
    have calm := @processBuffer_calm σ srv io p t.readBuf unmarked
    have clear := @flush_clear σ io _ _ tail (ConnState.buffer_some kept) calm why
      (congrArg Prod.snd flushed)
    have shaken := flush_tls io t.readBuf kept
    rw [flushed] at clear shaken
    exact ⟨clear, shaken⟩

theorem onTrafficTLS_keeps {srv : Server σ} {io : Io σ} {P : ConnState → Prop}
    (fills : ∀ (st : ConnState) (t : Tls), P st → P { st with tls := some t })
    (serves : ∀ {p q : Pass σ (List Bytes)} {t : Tls}, p.state.tls = some t → P p.state →
      srv.handleDecryptedResp io p t = (q, .none) → P q.state)
    {fuel : Nat} {p : Pass σ (List Bytes)} (holds : P p.state)
    (none : (srv.onTrafficTLS io fuel p).2 = .none) : P (srv.onTrafficTLS io fuel p).1.state := by
  induction fuel generalizing p with
  | zero => cases none
  | succ fuel ih =>
    unfold onTrafficTLS at none ⊢
    cases grown : p.state.tls.bind grow with
    | none =>
      simp only [grown] at none
      cases none
    | some t =>
      simp only [grown] at none ⊢
      obtain ⟨q, served, ended⟩ := Pass.turn_none none
      have next : P q.state := by
        rcases served with ⟨-, served⟩ | ⟨-, rfl⟩
        · exact serves rfl (fills p.state t.fill.1 holds) served
        · exact fills p.state t.fill.1 holds
      rcases ended with ⟨-, here⟩ | ⟨-, goesOn⟩
      · rw [here]
        exact next
      · rw [goesOn] at none ⊢
        exact ih next none

theorem loops (srv : Server σ) (io : Io σ) :
    Loops complete grow (srv.handleDecryptedResp io) (srv.onTrafficTLS io) where
  empty := rfl
  spent _ := rfl
  refused fuel p t encrypted refused := by
    simp [onTrafficTLS, encrypted, refused]
  turns fuel p t t' encrypted grown := by
    simp [onTrafficTLS, encrypted, grown]
  grows t t' grown := by
    unfold grow at grown
    split at grown
    · cases grown
      exact ⟨t.bufCap, t.fits, t.positive, rfl⟩
    split at grown
    · cases grown
    · cases grown
      exact ⟨_, _, _, rfl⟩
  cramped t t' u grown noRoom _ _ := absurd noRoom (Nat.ne_of_lt (grow_room grown).1)
  serves p t q encrypted unmarked served :=
    srv.handleDecryptedResp_serves io encrypted unmarked served

theorem onTrafficPlaintext_clear (srv : Server σ) (io : Io σ) {p : Pass σ (List Bytes)}
    (plaintext : p.state.tls = none) (unmarked : p.state.Open)
    (none : (srv.onTrafficPlaintext io p).2 = .none) :
    (srv.onTrafficPlaintext io p).1.state.Shaken ∧
      (srv.onTrafficPlaintext io p).1.state.Clear complete := by
  unfold onTrafficPlaintext at none ⊢
  simp only at none ⊢
  by_cases pending : p.state.authPending = true
  · rw [if_pos pending]
    exact ⟨ConnState.shaken_of_plaintext plaintext, Or.inl pending⟩
  rw [if_neg pending] at none ⊢
  split at none
  · cases none
  rename_i alone
  rw [if_neg alone]
  have stopped := srv.processBuffer_stopped io p.state.inbound (eq_false_of_ne_true pending)
  have tail := srv.processBuffer_ending io p p.state.inbound
  have calm := @processBuffer_calm σ srv io p p.state.inbound unmarked
  generalize srv.processBuffer io p p.state.inbound = q at *
  cases stopped with
  | refused bad why =>
    simp only [bad] at none
    cases none
  | upgraded halted server why =>
    simp only [halted]
    constructor
    · intro t here
      cases server.symm.trans here
      exact absurd rfl
    · rw [ConnState.Clear, ConnState.buffer_some server]
      exact Or.inr rfl
  | waits done same inbound why =>
    simp only [done] at none ⊢
    have kept := same.trans plaintext
    have buffer : q.pass.state.buffer = p.state.inbound := by
      rw [ConnState.buffer, kept, ← inbound]
      rfl
    exact ⟨ConnState.shaken_of_plaintext (flush_plaintext io _ kept),
      flush_clear tail buffer calm why none⟩

theorem drains (srv : Server σ) : Drains srv.frontEnd complete grow := by
  have guarded := @guarded σ srv (fun _ => True) fun _ _ _ => trivial
  refine ⟨guarded.oneAtATime, fun _ _ => ⟨⟨rfl, rfl⟩, ConnState.opened_clear rfl ..⟩, ?_, ?_⟩
  · intro io core st unmarked shaken none
    refine ⟨guarded.stays_open unmarked none, ?_⟩
    have traffic : srv.frontEnd.onTraffic io core st = srv.onTraffic io core st := rfl
    rw [traffic] at none ⊢
    unfold onTraffic at none ⊢
    simp only [Pass.ends] at none ⊢
    cases encrypted : st.tls with
    | none =>
      simp only [encrypted] at none ⊢
      obtain ⟨shaken', clear⟩ := srv.onTrafficPlaintext_clear io encrypted unmarked none
      exact ⟨shaken', Or.inl clear⟩
    | some t =>
      simp only [encrypted] at none ⊢
      split at none
      · cases none
      · rename_i inTime
        rw [if_neg inTime]
        exact (srv.loops io).clears encrypted unmarked shaken none
  · intro io core st shaken stranded
    have traffic : srv.frontEnd.onTraffic io core st = srv.onTraffic io core st := rfl
    obtain ⟨t, here, waits, -⟩ := stranded.2
    have encrypted : st.tls = some t := here
    have up := (srv.loops io).shaken (p := .start core st) encrypted shaken waits
    have inTime : ¬(t.handshakeCompleted = false ∧ io.late = true) := by simp [up]
    rw [traffic]
    simp only [onTraffic, encrypted, if_neg inTime, Pass.ends]
    exact (srv.loops io).strands t.available (p := .start core st) shaken stranded

end Server

end

end Tellstone.Resp
