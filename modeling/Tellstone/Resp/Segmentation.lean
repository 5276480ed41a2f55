import Tellstone.Resp.Pipelining

/-! Over plaintext, what the RESP listener dispatches depends on the bytes of a connection and on
its AUTHs, and not on how the bytes arrive. -/
namespace Tellstone.Resp
open ByteStream EventLoop Frontend Incremental

/-- With AUTHs rejected or not as `V` says: no QUIT, all AUTHs decided, and too few rejected. -/
def Proceeds (D : List (List Bytes)) (V : List Bool) : Prop :=
  (∀ args ∈ D, isQuit args = false) ∧ D.countP isAuth ≤ V.length ∧
    (V.take (D.countP isAuth)).count true < maxAuthFails

def Agree (V W : List Bool) : Prop :=
  ∀ (i : Nat) (x y : Bool), V[i]? = some x → W[i]? = some y → x = y

theorem Agree.refl (V : List Bool) : Agree V V :=
  fun _ _ _ here there => Option.some.inj (here.symm.trans there)

theorem Agree.symm {V W : List Bool} (agree : Agree V W) : Agree W V :=
  fun i x y here there => (agree i y x there here).symm

namespace Proceeds

variable {D : List (List Bytes)} {V : List Bool}

theorem nil (V : List Bool) : Proceeds [] V := ⟨by simp, by simp, by simp [maxAuthFails]⟩

theorem later (proceeds : Proceeds D V) (W : List Bool) : Proceeds D (V ++ W) := by
  obtain ⟨stays, decided, few⟩ := proceeds
  refine ⟨stays, decided.trans (by simp), ?_⟩
  rwa [List.take_append_of_le_length decided]

theorem earlier {E : List (List Bytes)} (proceeds : Proceeds (D ++ E) V) : Proceeds D V := by
  obtain ⟨stays, decided, few⟩ := proceeds
  have less : D.countP isAuth ≤ (D ++ E).countP isAuth := by simp
  refine ⟨fun args mem => stays args (List.mem_append_left E mem), less.trans decided, ?_⟩
  have part : V.take (D.countP isAuth) <+: V.take ((D ++ E).countP isAuth) :=
    List.take_prefix_take_left less
  exact Nat.lt_of_le_of_lt (part.sublist.count_le true) few

theorem agree {W : List Bool} (same : Agree V W) (decided : D.countP isAuth ≤ W.length)
    (proceeds : Proceeds D V) : Proceeds D W := by
  obtain ⟨stays, enough, few⟩ := proceeds
  have equal : W.take (D.countP isAuth) = V.take (D.countP isAuth) := by
    apply List.ext_getElem
    · simp [enough, decided]
    · intro i left right
      rw [List.getElem_take, List.getElem_take]
      refine (same i _ _ (List.getElem?_eq_getElem ?_) (List.getElem?_eq_getElem ?_)).symm
  exact ⟨stays, decided, equal ▸ few⟩

end Proceeds

theorem proceeds_snoc {D : List (List Bytes)} {V : List Bool} {args : List Bytes}
    (other : isAuth args = false) :
    Proceeds (D ++ [args]) V ↔ isQuit args = false ∧ Proceeds D V := by
  simp only [Proceeds, List.countP_append, List.countP_singleton, other, Bool.false_eq_true,
    if_false, Nat.add_zero, List.forall_mem_append, List.forall_mem_singleton]
  tauto

theorem proceeds_decided {D : List (List Bytes)} {V : List Bool}
    (decided : V.length = D.countP isAuth) :
    Proceeds D V ↔ (∀ args ∈ D, isQuit args = false) ∧ V.count true < maxAuthFails := by
  simp [Proceeds, ← decided]

section
variable {σ : Type}

/-- The next AUTH is decided: at once, or, if it is submitted, with its callback. -/
def Server.record (srv : Server σ) (V : List Bool) : Sight σ (List Bytes) → List Bool
  | .did (.served _ e) => if isAuth e.frame then V ++ [srv.rejects e.before e.frame] else V
  | .did (.submitted _ _) => V.dropLast
  | .finished _ _ v => V ++ [!v.success]

def Server.outcomes (srv : Server σ) (seen : List (Sight σ (List Bytes))) : List Bool :=
  seen.foldl srv.record []

theorem Server.outcomes_append (srv : Server σ) (seen log : List (Sight σ (List Bytes))) :
    srv.outcomes (seen ++ log) = log.foldl srv.record (srv.outcomes seen) :=
  List.foldl_append

theorem Server.record_sights (srv : Server σ) (V : List Bool) (st : ConnState) (core : Core σ)
    (args : List Bytes) {d : Dispatched σ} (asks : d.job.isSome = true → isAuth args = true) :
    (sights st core args d).foldl srv.record V =
      if isAuth args = true ∧ d.job = none then V ++ [srv.rejects core args] else V := by
  cases job : d.job with
  | none => simp [sights, job, Server.record]
  | some job' => simp [sights, job, Server.record, asks (by rw [job]; rfl)]

/-- The connection dispatched `D` off `S`, `rest` is left, and its AUTHs came to `V`. -/
structure InStep (S : Bytes) (D : List (List Bytes)) (V : List Bool) (st : ConnState)
    (rest : Bytes) : Prop where
  tls : st.tls = none
  plain : st.upgradeTLS = false
  parses : Parses parse S D rest
  auths : V.length + st.authPending.toNat = D.countP isAuth
  fails : st.authFails = V.count true
  went : Proceeds D.dropLast V
  stays : st.closeAfterReply = false ↔ st.authPending = true ∨ Proceeds D V

namespace InStep

variable {S rest : Bytes} {D : List (List Bytes)} {V : List Bool} {st : ConnState}

theorem rebuffered {st' : ConnState} (inStep : InStep S D V st rest) (same : st.Rebuffered st')
    (tls : st'.tls = st.tls) (plain : st'.upgradeTLS = st.upgradeTLS) : InStep S D V st' rest where
  tls := tls.trans inStep.tls
  plain := plain.trans inStep.plain
  parses := inStep.parses
  auths := by
    rw [same.authPending]
    exact inStep.auths
  fails := same.authFails.trans inStep.fails
  went := inStep.went
  stays := by
    rw [same.authPending, same.closeAfterReply]
    exact inStep.stays

theorem decided (inStep : InStep S D V st rest) (idle : st.authPending = false) :
    V.length = D.countP isAuth := by
  rw [← inStep.auths, idle]
  rfl

theorem proceeds (inStep : InStep S D V st rest) (idle : st.authPending = false)
    (unclosed : st.closeAfterReply = false) : Proceeds D V := by
  rcases inStep.stays.mp unclosed with pending | proceeds
  · exact absurd (idle.symm.trans pending) Bool.false_ne_true
  · exact proceeds

theorem command (inStep : InStep S D V st rest) (idle : st.authPending = false)
    (unclosed : st.closeAfterReply = false) {args : List Bytes} {rest' : Bytes}
    (read : parse rest = .ok (args, rest')) {rejects : Bool} {d : Dispatched σ}
    (tls : d.state.tls = st.tls)
    (effect : Effect false (isAuth args) (isAuth args && rejects) (isQuit args) st d) :
    InStep S (D ++ [args])
      (if isAuth args = true ∧ d.job = none then V ++ [rejects] else V) d.state rest' := by
  have goesOn := inStep.proceeds idle unclosed
  have decided := inStep.decided idle
  obtain ⟨calm, few⟩ := (proceeds_decided decided).mp goesOn
  have pending : d.state.authPending = d.job.isSome := by simpa [idle] using effect.pending
  have closing := effect.closing
  rw [unclosed, Bool.false_or] at closing
  cases auth : isAuth args with
  | false =>
    have none : d.job = none := by
      cases job : d.job with
      | none => rfl
      | some job' =>
        have asked := (effect.submitted (by rw [job]; rfl)).1
        exact absurd (auth.symm.trans asked) Bool.false_ne_true
    rw [auth] at closing
    simp only [Bool.false_and, Bool.or_false] at closing
    rw [if_neg (by simp)]
    refine ⟨tls.trans inStep.tls, effect.stays_plain inStep.plain, inStep.parses.snoc read, ?_, ?_,
      ?_, ?_⟩
    · rw [pending, none, decided]
      simp [auth]
    · rw [effect.fails, inStep.fails, auth]
      simp
    · rwa [List.dropLast_concat]
    · rw [closing, pending, none, proceeds_snoc auth]
      simp [goesOn]
  | true =>
    have calm' : ∀ a ∈ D ++ [args], isQuit a = false :=
      List.forall_mem_append.mpr ⟨calm, by simpa using not_isQuit_of_isAuth auth⟩
    have fails := effect.fails
    rw [auth, not_isQuit_of_isAuth auth] at closing
    rw [auth, Bool.true_and, inStep.fails] at fails
    simp only [Bool.false_or, Bool.true_and, inStep.fails] at closing
    cases job : d.job with
    | some job' =>
      -- the AUTH waits for its verdict
      have unrejected := (effect.submitted (by rw [job]; rfl)).2
      rw [auth, Bool.true_and] at unrejected
      rw [unrejected] at fails closing
      rw [job] at pending
      rw [if_neg (by simp)]
      refine ⟨tls.trans inStep.tls, effect.stays_plain inStep.plain, inStep.parses.snoc read, ?_,
        fails, ?_, ?_⟩
      · rw [pending, decided]
        simp [auth]
      · rwa [List.dropLast_concat]
      · simp [closing, pending]
    | none =>
      have all : (V ++ [rejects]).length = (D ++ [args]).countP isAuth := by
        simp [decided, auth]
      rw [job] at pending
      rw [if_pos ⟨rfl, rfl⟩]
      refine ⟨tls.trans inStep.tls, effect.stays_plain inStep.plain, inStep.parses.snoc read, ?_, ?_,
        ?_, ?_⟩
      · rw [pending, all]
        rfl
      · rw [fails]
        cases rejects <;> simp
      · rw [List.dropLast_concat]
        exact goesOn.later [rejects]
      · rw [proceeds_decided all, closing, pending, and_iff_right calm']
        cases rejects
        · simpa using few
        · simp

end InStep

namespace Server

variable (srv : Server σ) {S : Bytes} {seen : List (Sight σ (List Bytes))}

def Keeps (S : Bytes) (seen : List (Sight σ (List Bytes))) (p : Pass σ (List Bytes))
    (rest : Bytes) : Prop :=
  InStep S (dispatched (seen ++ p.log.map .did)) (srv.outcomes (seen ++ p.log.map .did)) p.state rest

variable {srv}

theorem Keeps.command (off : srv.startTLS = false) {p : Pass σ (List Bytes)} {rest rest' : Bytes}
    (keeps : srv.Keeps S seen p rest) (idle : p.state.authPending = false)
    (unclosed : p.state.closeAfterReply = false) {args : List Bytes}
    (read : parse rest = .ok (args, rest')) (m : Moment σ) (core : Core σ) :
    srv.Keeps S seen (p.take core args (srv.dispatch m p.state core args)) rest' := by
  have effect := srv.dispatch_effect m p.state core args
  rw [marks, off, Bool.false_and] at effect
  have tls := (srv.dispatch_sound m p.state core args).tls
  have next := InStep.command keeps idle unclosed read tls effect
  rw [Keeps, Pass.sights_take, ← List.append_assoc, dispatched_append, dispatched_sights,
    outcomes_append, record_sights srv _ _ _ _ fun asked => (effect.submitted asked).1]
  exact next

theorem Looped.keeps (off : srv.startTLS = false) {io : Io σ} {p : Pass σ (List Bytes)}
    {src out : Bytes} {q : Processed σ} (looped : Looped srv io p src out q)
    (keeps : srv.Keeps S seen p src) (idle : p.state.authPending = false)
    (unclosed : p.state.closeAfterReply = false) : srv.Keeps S seen q.pass q.rest := by
  have command {p : Pass σ (List Bytes)} {src rest : Bytes} {args : List Bytes}
      {d : Dispatched σ} (next : Next srv io p src args rest d) (keeps : srv.Keeps S seen p src)
      (idle : p.state.authPending = false) (unclosed : p.state.closeAfterReply = false) :
      srv.Keeps S seen (after io p args d) rest :=
    next.dispatches ▸ keeps.command off idle unclosed next.read _ _
  induction looped with
  | waits incomplete => exact keeps
  | refused malformed => exact keeps
  | handed next submitted => exact command next keeps idle unclosed
  | unwritten next upgrade => exact command next keeps idle unclosed
  | upgraded next upgrade =>
    exact absurd ((command next keeps idle unclosed).plain.symm.trans upgrade) Bool.false_ne_true
  | closes next plain closing => exact command next keeps idle unclosed
  | goesOn next answered plain stays later ih =>
    exact ih (command next keeps idle unclosed) (next.idle answered idle) stays

end Server

/-- Closed behind `D`: by its last command, the verdict on it, or what follows on the stream. -/
def Ended (S : Bytes) (D : List (List Bytes)) (V : List Bool) : Prop :=
  ∃ rest, Parses parse S D rest ∧ V.length = D.countP isAuth ∧ Proceeds D.dropLast V ∧
    (Proceeds D V → parse rest = .error .protocol)

theorem InStep.ended {S rest : Bytes} {D : List (List Bytes)} {V : List Bool} {st : ConnState}
    (inStep : InStep S D V st rest) (closing : st.closeAfterReply = true) : Ended S D V := by
  have done := mt inStep.stays.mpr (by simp [closing])
  obtain ⟨idle, stops⟩ := not_or.mp done
  exact ⟨rest, inStep.parses, inStep.decided (eq_false_of_ne_true idle), inStep.went,
    fun proceeds => absurd proceeds stops⟩

def Writes (io : Io σ) : Prop :=
  (∀ n, (io.moment n).writeFails = false) ∧ io.callback.writeFails = false

namespace Server

variable {srv : Server σ} {S : Bytes} {seen : List (Sight σ (List Bytes))} {io : Io σ} {core : Core σ}
  {st : ConnState}

def Leaves (srv : Server σ) (S : Bytes) (seen : List (Sight σ (List Bytes)))
    (r : Served (Core σ) ConnState (Entry σ (List Bytes)) AuthJob) : Prop :=
  let D := dispatched (seen ++ r.log.map .did)
  let V := srv.outcomes (seen ++ r.log.map .did)
  if r.action = .none then
    InStep S D V r.state r.state.inbound ∧ r.state.closeAfterReply = false ∧
      (r.state.authPending = true ∨ parse r.state.inbound = .error .incomplete)
  else Ended S D V

theorem flush_leaves (writes : Writes io) {q : Processed σ} {src : Bytes}
    (keeps : srv.Keeps S seen q.pass q.rest) (buffer : q.pass.state.inbound = src)
    (tail : q.rest <:+ src) (calm : q.rest = src → q.pass.state.closeAfterReply = false)
    (waits : q.pass.state.authPending = true ∨ q.pass.state.closeAfterReply = true ∨
      parse q.rest = .error .incomplete) :
    srv.Leaves S seen ((flush io src q).1.ends (flush io src q).2) := by
  by_cases consumed : src.length - q.rest.length = 0
  · have whole : q.rest = src := tail.eq_of_length_le (by omega)
    have unclosed := calm whole
    simp only [flush, if_pos consumed, Pass.ends, Leaves]
    refine ⟨?_, unclosed, ?_⟩
    · rw [buffer, ← whole]
      exact keeps
    · rw [buffer, ← whole]
      rcases waits with pending | closing | incomplete
      · exact Or.inl pending
      · exact absurd (unclosed.symm.trans closing) Bool.false_ne_true
      · exact Or.inr incomplete
  · have written : ¬ (q.out ≠ [] ∧ (io.moment q.pass.count).writeFails = true) := by
      simp [writes.1]
    have sent := q.pass.state.flushed_rebuffered q.out (src.length - q.rest.length)
    have left : ((q.pass.state.send q.out).discard (src.length - q.rest.length)).inbound =
        q.rest := by
      simp only [ConnState.discard, ConnState.send, keeps.tls, buffer]
      exact (List.suffix_iff_eq_drop.mp tail).symm
    have after : InStep S (dispatched (seen ++ q.pass.log.map .did))
        (srv.outcomes (seen ++ q.pass.log.map .did))
        ((q.pass.state.send q.out).discard (src.length - q.rest.length)) q.rest := by
      refine InStep.rebuffered keeps sent ?_ ?_
      · simp only [ConnState.discard, ConnState.send, keeps.tls]
      · simp only [ConnState.discard, ConnState.send, keeps.tls]
    simp only [flush, if_neg consumed, if_neg written, Pass.ends, Leaves]
    by_cases closing : q.pass.state.closeAfterReply = true
    · rw [if_pos closing, if_neg (by simp)]
      exact InStep.ended keeps closing
    · rw [if_neg closing, if_pos rfl, left]
      refine ⟨after, sent.closeAfterReply.trans (eq_false_of_ne_true closing), ?_⟩
      rcases waits with pending | closes | incomplete
      · exact Or.inl (sent.authPending.trans pending)
      · exact absurd closes closing
      · exact Or.inr incomplete

theorem onTraffic_leaves (off : srv.startTLS = false) (writes : Writes io)
    (inStep : InStep S (dispatched seen) (srv.outcomes seen) st st.inbound)
    (unclosed : st.closeAfterReply = false) :
    srv.Leaves S seen (srv.onTraffic io core st) := by
  have start : srv.Keeps S seen (.start core st) st.inbound := by
    simpa [Keeps, Pass.start] using inStep
  simp only [onTraffic, inStep.tls, onTrafficPlaintext, off]
  by_cases pending : st.authPending = true
  · simp only [Pass.start, pending, if_true, Pass.ends, Leaves]
    simpa [pending] using ⟨inStep, unclosed⟩
  have idle := eq_false_of_ne_true pending
  have keeps : srv.Keeps S seen (srv.processBuffer io (.start core st) st.inbound).pass
      (srv.processBuffer io (.start core st) st.inbound).rest :=
    (srv.processBuffer_looped io (.start core st) st.inbound).keeps off start idle unclosed
  have stopped := srv.processBuffer_stopped io (p := .start core st) st.inbound idle
  have tail := srv.processBuffer_ending io (.start core st) st.inbound
  have calm := @processBuffer_calm σ srv io (.start core st) st.inbound ⟨unclosed, inStep.plain⟩
  have idle' : (Pass.start core st : Pass σ (List Bytes)).state.authPending = false := idle
  have peeked : (Pass.start core st : Pass σ (List Bytes)).state.inbound = st.inbound := rfl
  simp only [idle', peeked, Bool.false_eq_true, false_and, if_false]
  generalize srv.processBuffer io (.start core st) st.inbound = q at *
  cases stopped with
  | waits done tls buffer why =>
    simp only [done]
    exact flush_leaves writes keeps buffer tail calm why
  | refused bad why =>
    rcases why with upgrade | ⟨quiet, malformed⟩
    · exact absurd (keeps.plain.symm.trans upgrade) Bool.false_ne_true
    · simp only [bad, Pass.ends, Leaves]
      exact ⟨q.rest, keeps.parses, InStep.decided keeps quiet, keeps.went, fun _ => malformed⟩
  | upgraded done server why => cases keeps.tls.symm.trans server

theorem onTraffic_pending (srv : Server σ) (io : Io σ) (core : Core σ) (plain : st.tls = none)
    (pending : st.authPending = true) : srv.onTraffic io core st = ⟨core, st, [], .none⟩ := by
  simp only [onTraffic, plain, onTrafficPlaintext, Pass.start, pending, if_true, Pass.ends]

end Server

namespace InStep

variable {S rest : Bytes} {D : List (List Bytes)} {V : List Bool} {st : ConnState}

theorem waits (inStep : InStep S D V st rest) (pending : st.authPending = true) :
    V.length + 1 = D.countP isAuth ∧ (∀ args ∈ D, isQuit args = false) ∧
      V.count true < maxAuthFails := by
  have auths := inStep.auths
  rw [pending, Bool.toNat_true] at auths
  refine ⟨auths, ?_⟩
  rcases List.eq_nil_or_concat D with rfl | ⟨front, args, rfl⟩
  · simp at auths
  obtain ⟨calm, decided, few⟩ := inStep.went
  rw [List.concat_eq_append, List.dropLast_concat] at calm decided few
  rw [List.concat_eq_append, List.countP_append, List.countP_singleton] at auths
  have auth : isAuth args = true := by
    by_contra other
    rw [if_neg other] at auths
    omega
  rw [if_pos auth] at auths
  have all : front.countP isAuth = V.length := by omega
  rw [all, List.take_length] at few
  refine ⟨?_, few⟩
  rw [List.concat_eq_append, List.forall_mem_append]
  exact ⟨calm, by simpa using not_isQuit_of_isAuth auth⟩

theorem finish (inStep : InStep S D V st rest) (pending : st.authPending = true) {io : Io σ}
    (writes : Writes io) (access : Access) (reply : Bool → Bytes) (core : Core σ) (job : AuthJob)
    (v : Verdict) :
    let f := callback access reply io core st job v
    InStep S D (V ++ [!v.success]) f.state rest ∧ f.closes = f.state.closeAfterReply ∧
      f.state.authPending = false ∧ f.state.inbound = st.inbound := by
  obtain ⟨last, calm, few⟩ := inStep.waits pending
  have decided : (V ++ [!v.success]).length = D.countP isAuth := by simpa using last
  have unclosed := inStep.stays.mpr (Or.inl pending)
  simp only [callback, writes.2, Bool.false_eq_true, if_false, settleAuth]
  cases success : v.success with
  | true =>
    rw [success] at decided
    simp only [if_true, ConnState.send]
    refine ⟨⟨inStep.tls, inStep.plain, inStep.parses, by simpa using decided, ?_,
      inStep.went.later _, ?_⟩, trivial, trivial, trivial⟩
    · simpa using inStep.fails
    · rw [proceeds_decided decided, and_iff_right calm]
      simpa [unclosed] using few
  | false =>
    rw [success] at decided
    simp only [Bool.false_eq_true, if_false, authFailed, ConnState.send]
    refine ⟨⟨inStep.tls, inStep.plain, inStep.parses, by simpa using decided, ?_,
      inStep.went.later _, ?_⟩, trivial, trivial, trivial⟩
    · simpa using inStep.fails
    · rw [proceeds_decided decided, and_iff_right calm]
      simp [unclosed, inStep.fails]

theorem receive (inStep : InStep S D V st st.inbound) (a : Arrival) :
    InStep (S ++ a.bytes) D V (st.receive a) (st.receive a).inbound := by
  have inbound : (st.receive a).inbound = st.inbound ++ a.bytes := by
    simp only [ConnState.receive, inStep.tls]
  have tls : (st.receive a).tls = st.tls := by
    simp only [ConnState.receive, inStep.tls]
  have plain : (st.receive a).upgradeTLS = st.upgradeTLS := by
    simp only [ConnState.receive, inStep.tls]
  have grown : InStep (S ++ a.bytes) D V st (st.inbound ++ a.bytes) :=
    { inStep with parses := inStep.parses.later parse_stable a.bytes }
  rw [inbound]
  exact grown.rebuffered (st.receive_rebuffered a) tls plain

end InStep

theorem Ended.later {S : Bytes} {D : List (List Bytes)} {V : List Bool} (ended : Ended S D V)
    (bytes : Bytes) : Ended (S ++ bytes) D V := by
  obtain ⟨rest, parses, decided, went, malformed⟩ := ended
  refine ⟨rest ++ bytes, parses.later parse_stable bytes, decided, went, fun proceeds => ?_⟩
  exact parse_stable.error (malformed proceeds) (by simp) bytes

def stream (id : Nat) (events : List (Happening σ)) : Bytes :=
  arrivals (fun io => io.arrival.bytes) id events

/-- Writes succeed, a queued close comes next, and nobody else closes the connection. -/
def Smooth (id : Nat) (w : World (Core σ) ConnState AuthJob Verdict) : Happening σ → Prop
  | .readable k io => k = id → Writes io ∧ ∀ c ∈ w.conns id, c.closes = false
  | .task k io => k = id → Writes io ∧
      ∀ c ∈ w.conns id, c.closes = true → c.tasks.head?.any Task.isClose = true
  | .expire k => k ≠ id
  | .hangup k => k ≠ id
  | _ => True

namespace Server

def Synced (srv : Server σ) (S : Bytes) (seen : List (Sight σ (List Bytes))) :
    Option (Conn ConnState AuthJob Verdict) → Prop
  | none => Ended S (dispatched seen) (srv.outcomes seen)
  | some c => InStep S (dispatched seen) (srv.outcomes seen) c.state c.state.inbound ∧
      c.closes = c.state.closeAfterReply ∧
      (c.state.authPending = true ∨ c.state.closeAfterReply = true ∨
        Task.wake ∈ c.tasks ∨ parse c.state.inbound = .error .incomplete)

variable {srv : Server σ} {S : Bytes} {seen : List (Sight σ (List Bytes))}

theorem Leaves.synced {r : Served (Core σ) ConnState (Entry σ (List Bytes)) AuthJob}
    (leaves : srv.Leaves S seen r) {tasks : List (Task AuthJob Verdict)}
    (unclosed : tasks.any Task.isClose = false) :
    srv.Synced S (seen ++ r.log.map .did) (r.left tasks) := by
  unfold Leaves at leaves
  unfold Served.left
  simp only at leaves
  split at leaves
  · rename_i stays
    obtain ⟨inStep, open', waits⟩ := leaves
    rw [if_pos stays]
    refine ⟨inStep, unclosed.trans open'.symm, ?_⟩
    rcases waits with pending | incomplete
    · exact Or.inl pending
    · exact Or.inr (Or.inr (Or.inr incomplete))
  · rename_i ends
    rw [if_neg ends]
    exact leaves

section
variable {io : Io σ} {c : Conn ConnState AuthJob Verdict} {tasks : List (Task AuthJob Verdict)}
  {job : AuthJob} {v : Verdict}

theorem Synced.readable (off : srv.startTLS = false) (synced : srv.Synced S seen (some c))
    (writes : Writes io) (unclosed : c.closes = false) (core : Core σ) :
    let r := srv.frontEnd.listener.traffic io core (srv.frontEnd.listener.receive io c.state)
    srv.Synced (S ++ io.arrival.bytes) (seen ++ r.log.map .did) (r.left c.tasks) := by
  obtain ⟨inStep, closes, -⟩ := synced
  refine (onTraffic_leaves off writes (inStep.receive io.arrival) ?_).synced unclosed
  rw [(c.state.receive_rebuffered io.arrival).closeAfterReply, ← closes]
  exact unclosed

theorem Synced.wake (off : srv.startTLS = false) (synced : srv.Synced S seen (some c))
    (writes : Writes io) (prompt : c.closes = true → c.tasks.head?.any Task.isClose = true)
    (first : c.tasks = .wake :: tasks) (core : Core σ) :
    let r := srv.frontEnd.listener.traffic io core c.state
    srv.Synced S (seen ++ r.log.map .did) (r.left tasks) := by
  obtain ⟨inStep, closes, -⟩ := synced
  have unclosed : c.closes = false := by
    by_contra queued
    have next := prompt (eq_true_of_ne_false queued)
    rw [first] at next
    cases next
  have left : tasks.any Task.isClose = false := by
    rw [Conn.closes, first] at unclosed
    simpa [Task.isClose] using unclosed
  exact (onTraffic_leaves off writes inStep (closes ▸ unclosed)).synced left

theorem Synced.quiet (synced : srv.Synced S seen (some c)) (pending : c.state.authPending = true)
    (io : Io σ) (core : Core σ) :
    srv.frontEnd.listener.traffic io core c.state = ⟨core, c.state, [], .none⟩ :=
  srv.onTraffic_pending io core synced.1.tls pending

theorem Synced.finish (synced : srv.Synced S seen (some c)) (pending : c.state.authPending = true)
    (writes : Writes io) (first : c.tasks = .finish job v :: tasks) (core : Core σ) :
    let f := callback srv.access srv.frontEnd.reply io core c.state job v
    srv.Synced S (seen ++ [.finished c.state job v])
      (some ⟨f.state, tasks ++ [Task.after f.closes]⟩) := by
  obtain ⟨inStep, closes, -⟩ := synced
  obtain ⟨after, same, idle, inbound⟩ := inStep.finish pending writes srv.access
    srv.frontEnd.reply core job v
  intro f
  change InStep _ _ _ f.state _ at after
  change f.closes = f.state.closeAfterReply at same
  change f.state.inbound = _ at inbound
  have unclosed : tasks.any Task.isClose = false := by
    have none := closes.trans (inStep.stays.mpr (Or.inl pending))
    rw [Conn.closes, first] at none
    exact none
  refine ⟨?_, ?_, ?_⟩
  · rw [dispatched_append, outcomes_append, inbound]
    simpa [dispatched, record] using after
  · rw [Conn.closes, List.any_append, unclosed, ← same]
    cases f.closes <;> rfl
  · cases closing : f.closes with
    | true => exact Or.inr (Or.inl (same.symm.trans closing))
    | false => exact Or.inr (Or.inr (Or.inl (List.mem_append_right _ List.mem_cons_self)))

theorem Synced.queued (synced : srv.Synced S seen (some c)) :
    srv.Synced S seen (some ⟨c.state, c.tasks ++ [.finish job v]⟩) := by
  obtain ⟨inStep, closes, waits⟩ := synced
  refine ⟨inStep, ?_, ?_⟩
  · rw [← closes, Conn.closes, List.any_append]
    exact Bool.or_false _
  · rcases waits with pending | closing | woken | incomplete
    · exact Or.inl pending
    · exact Or.inr (Or.inl closing)
    · exact Or.inr (Or.inr (Or.inl (List.mem_append_left _ woken)))
    · exact Or.inr (Or.inr (Or.inr incomplete))

end

theorem Synced.turn (off : srv.startTLS = false)
    {w : World (Core σ) ConnState AuthJob Verdict} (tracked : w.Tracked ConnState.authPending)
    {id : Nat} {events : List (Happening σ)} {ev : Happening σ} (smooth : Smooth id w ev)
    (synced : srv.Synced (stream id events) seen (w.conns id))
    {conn : Option (Conn ConnState AuthJob Verdict)} {log : List (Sight σ (List Bytes))}
    (turn : w.Turn srv.frontEnd.listener id ev conn log) :
    srv.Synced (stream id (events ++ [ev])) (seen ++ log) conn := by
  rw [stream, arrivals_append]
  cases turn with
  | idle unread =>
    rw [arrivals_other _ unread, List.append_nil, List.append_nil]
    exact synced
  | refused io gone =>
    rw [gone] at synced
    rw [List.append_nil]
    exact Ended.later synced _
  | readable io c there =>
    rw [there] at synced
    obtain ⟨writes, prompt⟩ := smooth rfl
    rw [arrivals_readable]
    exact synced.readable off writes (prompt c there) w.backend
  | wake io c tasks there first =>
    rw [there] at synced
    obtain ⟨writes, prompt⟩ := smooth rfl
    rw [arrivals_other _ (fun _ same => by cases same), List.append_nil]
    exact synced.wake off writes (prompt c there) first w.backend
  | broken io c job v tasks there first ends =>
    rw [there] at synced
    rw [synced.quiet (tracked.finishing there first)] at ends
    exact absurd rfl ends
  | finish io c job v tasks there first stays =>
    rw [there] at synced
    have pending := tracked.finishing there first
    rw [arrivals_other _ (fun _ same => by cases same), List.append_nil]
    simp only [synced.quiet pending, List.map_nil, List.nil_append]
    exact synced.finish pending (smooth rfl).1 first w.backend
  | closed io c tasks there first =>
    rw [there] at synced
    obtain ⟨inStep, closes, -⟩ := synced
    have closing : c.state.closeAfterReply = true := by
      rw [← closes, Conn.closes, first]
      rfl
    rw [arrivals_other _ (fun _ same => by cases same), List.append_nil, List.append_nil]
    exact inStep.ended closing
  | verified i job oracle c there busy =>
    rw [there] at synced
    rw [arrivals_other _ (fun _ same => by cases same), List.append_nil, List.append_nil]
    exact synced.queued
  | expire c there => exact absurd rfl smooth
  | hangup => exact absurd rfl smooth

theorem synced_opened (plain : srv.tls = false) (io : Io σ) (core : Core σ) :
    srv.Synced [] [] (some ⟨srv.frontEnd.listener.opened io core, []⟩) := by
  have start : srv.frontEnd.listener.opened io core = .opened io.remoteAddr false
      (srv.connectionAuth core).1 (srv.connectionAuth core).2 := by
    simp only [FrontEnd.listener, frontEnd, onOpen, plain, Bool.false_and]
  rw [start]
  refine ⟨⟨rfl, rfl, .nil _, rfl, rfl, .nil _, ?_⟩, rfl, Or.inr (Or.inr (Or.inr rfl))⟩
  exact ⟨fun _ => Or.inr (.nil _), fun _ => rfl⟩

theorem life_synced (off : srv.startTLS = false) (plain : srv.tls = false)
    (l : Session σ)
    (smooth : (l.accepted srv.frontEnd.listener).Along srv.frontEnd.listener
      (Smooth (l.id srv.frontEnd.listener)) l.events) :
    srv.Synced (stream (l.id srv.frontEnd.listener) l.events) (l.seen srv.frontEnd.listener)
      (l.conn srv.frontEnd.listener) := by
  have one := (@guarded σ srv (fun _ => True) fun _ _ _ => trivial).oneAtATime
  refine (l.follows one
    (fun events => srv.Synced (stream (l.id srv.frontEnd.listener) events))
    (synced_opened plain l.input _) ?_ smooth).1
  intro w events seen ev conn log tracked now synced turn
  exact synced.turn off tracked now turn

end Server

/-- Where a connection comes to rest. -/
structure Final (S : Bytes) (D : List (List Bytes)) (V : List Bool) (rest : Bytes)
    (closed : Prop) : Prop where
  parses : Parses parse S D rest
  decided : V.length = D.countP isAuth
  went : Proceeds D.dropLast V
  closes : closed → Proceeds D V → parse rest = .error .protocol
  stays : ¬ closed → Proceeds D V ∧ parse rest = .error .incomplete

theorem Server.Synced.final {srv : Server σ} {S : Bytes} {seen : List (Sight σ (List Bytes))}
    {conn : Option (Conn ConnState AuthJob Verdict)} (synced : srv.Synced S seen conn)
    (settled : Settled ConnState.authPending conn) :
    ∃ rest, Final S (dispatched seen) (srv.outcomes seen) rest (conn = none) := by
  cases conn with
  | none =>
    obtain ⟨rest, parses, decided, went, malformed⟩ := synced
    exact ⟨rest, parses, decided, went, fun _ => malformed, fun unclosed => absurd rfl unclosed⟩
  | some c =>
    obtain ⟨inStep, closes, waits⟩ := synced
    obtain ⟨idle, done⟩ := settled c rfl
    have unclosed : c.state.closeAfterReply = false := by
      rw [← closes, Conn.closes, done]
      rfl
    refine ⟨c.state.inbound, inStep.parses, inStep.decided idle, inStep.went,
      fun gone => (by cases gone), fun _ => ⟨inStep.proceeds idle unclosed, ?_⟩⟩
    rcases waits with pending | closing | woken | incomplete
    · exact absurd (idle.symm.trans pending) Bool.false_ne_true
    · exact absurd (unclosed.symm.trans closing) Bool.false_ne_true
    · rw [done] at woken
      cases woken
    · exact incomplete

namespace Final

variable {S rest rest' : Bytes} {D E : List (List Bytes)} {V W : List Bool} {closed closed' : Prop}

theorem stops (first : Final S D V rest closed) (second : Final S (D ++ E) W rest' closed')
    (agree : Agree V W) (further : Parses parse rest E rest') : E = [] := by
  cases further with
  | nil => rfl
  | @cons _ mid _ args others read parses =>
    exfalso
    have went : Proceeds D W := by
      have front := second.went
      rw [List.dropLast_append_of_ne_nil (List.cons_ne_nil args others)] at front
      exact front.earlier
    have proceeds := went.agree agree.symm (Nat.le_of_eq first.decided.symm)
    by_cases done : closed
    · rw [first.closes done proceeds] at read
      cases read
    · rw [(first.stays done).2] at read
      cases read

theorem closed_of_closed (first : Final S D V rest closed) (second : Final S D W rest closed')
    (agree : Agree V W) (done : closed) : closed' := by
  by_contra stays
  obtain ⟨proceeds, incomplete⟩ := second.stays stays
  have malformed := first.closes done
    (proceeds.agree agree.symm (Nat.le_of_eq first.decided.symm))
  rw [incomplete] at malformed
  cases malformed

theorem unique (first : Final S D V rest closed) (second : Final S E W rest' closed')
    (agree : Agree V W) : D = E ∧ (closed ↔ closed') := by
  have same : D = E ∧ rest = rest' := by
    rcases first.parses.comparable second.parses with ⟨more, rfl, further⟩ | ⟨more, rfl, further⟩
    · obtain rfl := first.stops second agree further
      cases further
      exact ⟨(List.append_nil D).symm, rfl⟩
    · obtain rfl := second.stops first agree.symm further
      cases further
      exact ⟨List.append_nil E, rfl⟩
  obtain ⟨rfl, rfl⟩ := same
  exact ⟨rfl, first.closed_of_closed second agree, second.closed_of_closed first agree.symm⟩

end Final

end

end Tellstone.Resp
