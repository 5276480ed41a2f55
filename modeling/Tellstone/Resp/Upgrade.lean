import Tellstone.Resp.Pipelining

/-! STARTTLS on a plaintext connection: the scan of the buffer and the loop over it agree
where the command is, and no plaintext is left behind it. -/
namespace Tellstone.Resp
open ByteStream EventLoop Frontend Incremental

def Asks (buf : Bytes) : Prop :=
  ∃ commands mid args rest, Parses parse buf commands mid ∧ parse mid = .ok (args, rest) ∧
    isSTARTTLS args = true

/-- A complete STARTTLS with something before or behind it, and everything before it parses. -/
def Pipelined (buf : Bytes) : Prop :=
  ∃ commands mid args rest, Parses parse buf commands mid ∧ parse mid = .ok (args, rest) ∧
    isSTARTTLS args = true ∧ (mid ≠ buf ∨ rest ≠ [])

def Alone (buf : Bytes) : Prop := ∃ args, parse buf = .ok (args, []) ∧ isSTARTTLS args = true

theorem asks_iff {buf : Bytes} :
    Asks buf ↔ ∃ args next, parse buf = .ok (args, next) ∧ (isSTARTTLS args = true ∨ Asks next) := by
  constructor
  · rintro ⟨commands, mid, args, rest, parses, read, named⟩
    cases parses with
    | nil => exact ⟨args, rest, read, Or.inl named⟩
    | cons first others =>
      exact ⟨_, _, first, Or.inr ⟨_, mid, args, rest, others, read, named⟩⟩
  · rintro ⟨args, next, read, named | ⟨commands, mid, others, rest, parses, last, named⟩⟩
    · exact ⟨[], buf, args, next, .nil buf, read, named⟩
    · exact ⟨args :: commands, mid, others, rest, .cons read parses, last, named⟩

theorem pipelined_iff {buf : Bytes} :
    Pipelined buf ↔ ∃ args next, parse buf = .ok (args, next) ∧
      (isSTARTTLS args = true ∧ next ≠ [] ∨ Asks next) := by
  constructor
  · rintro ⟨commands, mid, args, rest, parses, read, named, beside⟩
    cases parses with
    | nil =>
      have behind : rest ≠ [] := beside.resolve_left fun before => before rfl
      exact ⟨args, rest, read, Or.inl ⟨named, behind⟩⟩
    | cons first others =>
      exact ⟨_, _, first, Or.inr ⟨_, mid, args, rest, others, read, named⟩⟩
  · rintro ⟨args, next, read, ⟨named, behind⟩ | ⟨commands, mid, others, rest, parses, last, named⟩⟩
    · exact ⟨[], buf, args, next, .nil buf, read, named, Or.inr behind⟩
    · refine ⟨args :: commands, mid, others, rest, .cons read parses, last, named, Or.inl ?_⟩
      rintro rfl
      have short := (parses.ending parse_stable).length_le
      exact absurd (parse_shorter read) (Nat.not_lt_of_le short)

theorem Asks.ne_nil {buf : Bytes} (asks : Asks buf) : buf ≠ [] := by
  rintro rfl
  obtain ⟨args, next, read, -⟩ := asks_iff.mp asks
  cases read

theorem Pipelined.later {buf : Bytes} (pipelined : Pipelined buf) (later : Bytes) :
    Pipelined (buf ++ later) := by
  obtain ⟨commands, mid, args, rest, parses, read, named, beside⟩ := pipelined
  refine ⟨commands, mid ++ later, args, rest ++ later, parses.later parse_stable later,
    parse_stable.ok read later, named, ?_⟩
  rcases beside with before | behind
  · exact Or.inl fun same => before (List.append_cancel_right same)
  · exact Or.inr fun none => behind (List.append_eq_nil_iff.mp none).1

namespace Server

theorem hasPipelinedSTARTTLS_ok {rest next : Bytes} {args : List Bytes}
    (read : parse rest = .ok (args, next)) (buf : Bytes) (fuel : Nat) :
    hasPipelinedSTARTTLS buf (fuel + 1) rest =
      if isSTARTTLS args = true then decide (rest.length ≠ buf.length ∨ next ≠ [])
      else hasPipelinedSTARTTLS buf fuel next := by
  simp only [hasPipelinedSTARTTLS, read, isSTARTTLS, Bool.and_eq_true, decide_eq_true_eq]

theorem hasPipelinedSTARTTLS_behind {buf : Bytes} {fuel : Nat} {rest : Bytes}
    (behind : rest.length < buf.length) (enough : rest.length ≤ fuel) :
    hasPipelinedSTARTTLS buf fuel rest = true ↔ Asks rest := by
  induction fuel generalizing rest with
  | zero =>
    have nothing : rest = [] := List.eq_nil_of_length_eq_zero (Nat.le_zero.mp enough)
    constructor
    · intro found
      cases found
    · intro asks
      exact absurd nothing asks.ne_nil
  | succ fuel ih =>
    rw [asks_iff]
    cases read : parse rest with
    | error err => simp [hasPipelinedSTARTTLS, read]
    | ok result =>
      obtain ⟨args, next⟩ := result
      have shorter := parse_shorter read
      have later := ih (shorter.trans behind) (Nat.le_of_lt_succ (shorter.trans_le enough))
      rw [hasPipelinedSTARTTLS_ok read]
      cases named : isSTARTTLS args <;> simp [named, later, Nat.ne_of_lt behind]

theorem hasPipelinedSTARTTLS_iff {buf : Bytes} :
    hasPipelinedSTARTTLS buf buf.length buf = true ↔ Pipelined buf := by
  rw [pipelined_iff]
  cases read : parse buf with
  | error err =>
    cases fuel : buf.length with
    | zero => simp [hasPipelinedSTARTTLS]
    | succ fuel => simp [hasPipelinedSTARTTLS, read]
  | ok result =>
    obtain ⟨args, next⟩ := result
    have shorter := parse_shorter read
    obtain ⟨fuel, size⟩ := Nat.exists_eq_add_one_of_ne_zero (Nat.ne_zero_of_lt shorter)
    have later := hasPipelinedSTARTTLS_behind shorter
      (Nat.le_of_lt_succ (Nat.lt_of_lt_of_eq shorter size))
    rw [size, hasPipelinedSTARTTLS_ok read]
    cases named : isSTARTTLS args with
    | false => simp [named, later]
    | true =>
      have asks : Asks next → next ≠ [] := Asks.ne_nil
      simpa [named] using asks

variable {σ : Type}

theorem dispatch_marks (srv : Server σ) (m : Moment σ) {st : ConnState} (core : Core σ)
    {args : List Bytes} (plain : st.upgradeTLS = false)
    (marked : (srv.dispatch m st core args).state.upgradeTLS = true) :
    isSTARTTLS args = true ∧ (srv.dispatch m st core args).job.isSome = false := by
  have effect := srv.dispatch_effect m st core args
  have upgrades := (effect.plain marked).resolve_left fun before =>
    Bool.false_ne_true (plain.symm.trans before)
  simp only [marks, Bool.and_eq_true] at upgrades
  obtain ⟨-, -, named⟩ := upgrades
  refine ⟨named, eq_false_of_ne_true fun submitted => ?_⟩
  have fold := (Bool.and_eq_true_iff.mp named).2
  exact absurd (eq_of_equalFold (effect.submitted submitted).1 fold) (by decide)

theorem Looped.marks {srv : Server σ} {io : Io σ} {p : Pass σ (List Bytes)} {src out : Bytes}
    {q : Processed σ} (looped : Looped srv io p src out q) (plain : p.state.upgradeTLS = false) :
    (q.stop ≠ .bad → q.pass.state.upgradeTLS = false) ∧
      (q.stop = .upgraded → q.pass.state.inbound = q.rest ∧
        ∃ commands mid args, Parses parse src commands mid ∧
          parse mid = .ok (args, q.rest) ∧ isSTARTTLS args = true) := by
  have marks {p : Pass σ (List Bytes)} {src rest : Bytes} {args : List Bytes} {d : Dispatched σ}
      (next : Next srv io p src args rest d) (plain : p.state.upgradeTLS = false)
      (marked : d.state.upgradeTLS = true) : isSTARTTLS args = true ∧ d.job.isSome = false := by
    have named := @dispatch_marks σ srv (io.moment p.count) p.state
      ((io.moment p.count).others p.core) args plain
    rw [next.dispatches] at named
    exact named marked
  induction looped with
  | waits incomplete => exact ⟨fun _ => plain, fun halted => by cases halted⟩
  | refused malformed => exact ⟨fun fine => absurd rfl fine, fun halted => by cases halted⟩
  | handed next submitted =>
    refine ⟨fun _ => eq_false_of_ne_true fun marked => ?_, fun halted => by cases halted⟩
    exact Bool.false_ne_true ((marks next plain marked).2.symm.trans submitted)
  | unwritten next upgrade => exact ⟨fun fine => absurd rfl fine, fun halted => by cases halted⟩
  | upgraded next upgrade =>
    exact ⟨fun _ => rfl,
      fun _ => ⟨rfl, [], _, _, .nil _, next.read, (marks next plain upgrade).1⟩⟩
  | closes next unmarked closing => exact ⟨fun _ => unmarked, fun halted => by cases halted⟩
  | goesOn next answered unmarked stays later ih =>
    obtain ⟨fine, upgrade⟩ := ih unmarked
    refine ⟨fine, fun upgraded => ?_⟩
    obtain ⟨inbound, commands, mid, last, parses, read, named⟩ := upgrade upgraded
    exact ⟨inbound, _ :: commands, mid, last, .cons next.read parses, read, named⟩

/-- No upgrade is half done, and no plaintext waits on a connection with TLS. -/
structure Apart (st : ConnState) : Prop where
  plain : st.upgradeTLS = false
  empty : st.tls ≠ none → st.inbound = []

theorem Apart.of_plaintext {st : ConnState} (plain : st.upgradeTLS = false)
    (plaintext : st.tls = none) : Apart st :=
  ⟨plain, fun encrypted => absurd plaintext encrypted⟩

/-- What a call makes of a plaintext connection. -/
structure Boundary (st : ConnState)
    (r : Served (Core σ) ConnState (Entry σ (List Bytes)) AuthJob) : Prop where
  upgrades : r.action = .none → r.state.tls ≠ none →
    Alone st.inbound ∧ r.state.inbound = [] ∧ r.state.tls = some .server
  refuses : Pipelined st.inbound → r.log = [] ∧ r.state = st ∧
    r.action = if st.authPending then .none else .close

theorem onTrafficPlaintext_boundary {srv : Server σ} (on : srv.startTLS = true) (io : Io σ)
    {p : Pass σ (List Bytes)} (fresh : p.log = []) (plain : p.state.upgradeTLS = false)
    (plaintext : p.state.tls = none) :
    let r := srv.onTrafficPlaintext io p
    Boundary p.state (r.1.ends r.2) ∧ (r.2 = .none → Apart r.1.state) := by
  have apart : Apart p.state := .of_plaintext plain plaintext
  unfold onTrafficPlaintext
  simp only
  by_cases pending : p.state.authPending = true
  · rw [if_pos pending]
    refine ⟨⟨fun _ encrypted => absurd plaintext encrypted, fun _ => ⟨fresh, rfl, ?_⟩⟩, fun _ => apart⟩
    rw [if_pos pending]
    rfl
  rw [if_neg pending]
  by_cases pipelined : Pipelined p.state.inbound
  · rw [if_pos ⟨on, hasPipelinedSTARTTLS_iff.mpr pipelined⟩]
    refine ⟨⟨(fun stays => by cases stays), fun _ => ⟨fresh, rfl, ?_⟩⟩, fun stays => by cases stays⟩
    rw [if_neg pending]
    rfl
  rw [if_neg fun found => pipelined (hasPipelinedSTARTTLS_iff.mp found.2)]
  have stopped := srv.processBuffer_stopped io p.state.inbound
    (eq_false_of_ne_true pending)
  have marks := (srv.processBuffer_looped io p p.state.inbound).marks plain
  generalize srv.processBuffer io p p.state.inbound = q at *
  obtain ⟨fine, upgrade⟩ := marks
  cases stopped with
  | refused bad why =>
    simp only [bad]
    exact ⟨⟨(fun stays => by cases stays), fun found => absurd found pipelined⟩,
      fun stays => by cases stays⟩
  | upgraded halted server why =>
    obtain ⟨inbound, commands, mid, args, parses, read, named⟩ := upgrade halted
    -- The scan let the buffer pass, so that nothing is before the STARTTLS or behind it.
    have whole : mid = p.state.inbound ∧ q.rest = [] := by
      by_contra beside
      exact pipelined ⟨commands, mid, args, q.rest, parses, read, named, not_and_or.mp beside⟩
    rw [whole.1, whole.2] at read
    have empty : q.pass.state.inbound = [] := inbound.trans whole.2
    simp only [halted]
    refine ⟨⟨fun _ _ => ⟨⟨args, read, named⟩, empty, server⟩, fun found => absurd found pipelined⟩,
      fun _ => ⟨fine ?_, fun _ => empty⟩⟩
    rw [halted]
    exact fun halts => by cases halts
  | waits done same inbound why =>
    have kept := flush_plaintext io p.state.inbound (same.trans plaintext)
    have unmarked : q.pass.state.upgradeTLS = false := by
      apply fine
      rw [done]
      exact fun halts => by cases halts
    simp only [done]
    exact ⟨⟨fun _ encrypted => absurd kept encrypted, fun found => absurd found pipelined⟩,
      fun _ => .of_plaintext ((flush_upgradeTLS io p.state.inbound q).trans unmarked) kept⟩

theorem handleDecryptedResp_apart (srv : Server σ) (io : Io σ) {p q : Pass σ (List Bytes)}
    {t : Tls} (encrypted : p.state.tls = some t) (apart : Apart p.state)
    (served : srv.handleDecryptedResp io p t = (q, .none)) : q.state.tls ≠ none ∧ Apart q.state := by
  have some : p.state.tls ≠ none := by
    rw [encrypted]
    exact Option.some_ne_none t
  obtain ⟨-, rfl⟩ | ⟨done, kept, inbound, -, flushed⟩ :=
    srv.handleDecryptedResp_none io encrypted apart.plain served
  · exact ⟨some, apart⟩
  · have marks := (srv.processBuffer_looped io p t.readBuf).marks apart.plain
    have fine : (srv.processBuffer io p t.readBuf).stop ≠ .bad := by
      rw [done]
      exact fun halts => by cases halts
    obtain ⟨t', here, -⟩ := flush_tls io t.readBuf kept
    have empty := flush_inbound io t.readBuf kept
    have unmarked := flush_upgradeTLS io t.readBuf (srv.processBuffer io p t.readBuf)
    rw [flushed] at here empty unmarked
    refine ⟨?_, unmarked.trans (marks.1 fine), fun _ => ?_⟩
    · rw [here]
      exact Option.some_ne_none t'
    · exact empty.trans (inbound.trans (apart.empty some))

theorem onTrafficTLS_apart (srv : Server σ) (io : Io σ) {fuel : Nat} {p : Pass σ (List Bytes)}
    (encrypted : p.state.tls ≠ none) (apart : Apart p.state)
    (none : (srv.onTrafficTLS io fuel p).2 = .none) :
    Apart (srv.onTrafficTLS io fuel p).1.state := by
  have kept := onTrafficTLS_keeps (P := fun st => st.tls ≠ Option.none ∧ Apart st) ?_ ?_
    ⟨encrypted, apart⟩ none
  · exact kept.2
  · intro st t holds
    exact ⟨Option.some_ne_none t, holds.2.plain, fun _ => holds.2.empty holds.1⟩
  · intro p q t here holds served
    exact srv.handleDecryptedResp_apart io here holds.2 served

variable {srv : Server σ}

theorem onTraffic_boundary (on : srv.startTLS = true) (io : Io σ) (core : Core σ) {st : ConnState}
    (plain : st.upgradeTLS = false) (plaintext : st.tls = none) :
    Boundary st (srv.onTraffic io core st) ∧
      ((srv.onTraffic io core st).action = .none → Apart (srv.onTraffic io core st).state) := by
  unfold onTraffic
  simp only [plaintext]
  exact onTrafficPlaintext_boundary on io (p := .start core st) rfl plain plaintext

theorem onTraffic_apart (on : srv.startTLS = true) (io : Io σ) (core : Core σ) {st : ConnState}
    (apart : Apart st) (none : (srv.onTraffic io core st).action = .none) :
    Apart (srv.onTraffic io core st).state := by
  cases encrypted : st.tls with
  | none => exact (onTraffic_boundary on io core apart.plain encrypted).2 none
  | some t =>
    unfold onTraffic at none ⊢
    simp only [encrypted, Pass.ends] at none ⊢
    split at none
    · cases none
    · rename_i inTime
      rw [if_neg inTime]
      refine srv.onTrafficTLS_apart io ?_ apart none
      simp [Pass.start, encrypted]

theorem Apart.receive {st : ConnState} (apart : Apart st) (a : Arrival) : Apart (st.receive a) := by
  cases encrypted : st.tls with
  | none =>
    simp only [ConnState.receive, encrypted]
    exact .of_plaintext apart.plain rfl
  | some t =>
    simp only [ConnState.receive, encrypted]
    exact ⟨apart.plain, fun _ => apart.empty (by simp [encrypted])⟩

theorem apart_preserves (on : srv.startTLS = true) :
    srv.frontEnd.listener.Preserves Apart (fun _ => True) where
  receive io _ apart := apart.receive io.arrival
  traffic io core _ apart := ⟨fun _ _ => trivial, onTraffic_apart on io core apart⟩
  finish io core st job v apart := by
    obtain ⟨tls, plain, inbound⟩ := callback_kept srv.access srv.frontEnd.reply io core st job v
    exact ⟨plain.trans apart.plain, fun encrypted => inbound.trans (apart.empty (tls ▸ encrypted))⟩

/-- A STARTTLS waits on a plaintext connection, with something beside it. -/
structure Refused (st : ConnState) : Prop where
  plain : st.upgradeTLS = false
  plaintext : st.tls = none
  pipelined : Pipelined st.inbound

theorem refused_preserves (on : srv.startTLS = true) :
    srv.frontEnd.listener.Preserves Refused (fun _ => False) where
  receive io st refused := by
    obtain ⟨plain, plaintext, pipelined⟩ := refused
    have more : st.receive io.arrival = { st with inbound := st.inbound ++ io.arrival.bytes } := by
      simp only [ConnState.receive, plaintext]
    have received : Refused (st.receive io.arrival) := by
      rw [more]
      exact ⟨plain, plaintext, pipelined.later _⟩
    exact received
  traffic io core st refused := by
    obtain ⟨silent, same, -⟩ :=
      (onTraffic_boundary on io core refused.plain refused.plaintext).1.refuses refused.pipelined
    have nothing : (srv.frontEnd.listener.traffic io core st).log = [] := silent
    have left : (srv.frontEnd.listener.traffic io core st).state = st := same
    rw [nothing, left]
    exact ⟨fun _ mem => absurd mem List.not_mem_nil, fun _ => refused⟩
  finish io core st job v refused := by
    obtain ⟨tls, plain, inbound⟩ := callback_kept srv.access srv.frontEnd.reply io core st job v
    exact ⟨plain.trans refused.plain, tls.trans refused.plaintext,
      inbound.symm ▸ refused.pipelined⟩

end Server

end Tellstone.Resp
