import Tellstone.Network.Codec
import Tellstone.Network.Pipelining

/-! The read loop of the binary listener over TLS: on legal frames that fit its buffer it returns
and serves every one. -/
namespace Tellstone.Network
open ByteStream EventLoop Frontend

/-- A frame that the listener takes, and what it reads there. -/
structure Frame (maxMsgSize : Nat) where
  type : UInt8
  payload : Bytes
  message : Message
  legal : 1 + payload.length ≤ maxMsgSize
  reads : framed type payload = .ok message

namespace Frame

variable {maxMsgSize : Nat}

def wire (f : Frame maxMsgSize) : Bytes := frame f.type f.payload

def isAuth (f : Frame maxMsgSize) : Bool := f.message.hasType .auth

theorem wire_length (f : Frame maxMsgSize) : f.wire.length = 5 + f.payload.length :=
  frame_length _ _

def stream (fs : List (Frame maxMsgSize)) : Bytes := (fs.map wire).flatten

theorem stream_append (fs gs : List (Frame maxMsgSize)) :
    stream (fs ++ gs) = stream fs ++ stream gs := by
  simp only [stream, List.map_append, List.flatten_append]

theorem stream_cons (f : Frame maxMsgSize) (fs : List (Frame maxMsgSize)) :
    stream (f :: fs) = f.wire ++ stream fs := rfl

theorem decode_wire (f : Frame maxMsgSize) (rest : Bytes)
    (fits : (f.wire ++ rest).length < 2 ^ 32 - 4) :
    decode (f.wire ++ rest) maxMsgSize = .ok (f.payload.length, f.message) := by
  have size := f.wire_length
  have legal := f.legal
  have total : (f.wire ++ rest).length = f.wire.length + rest.length := List.length_append
  rw [wire, decode_frame rest legal (by omega) (by rw [← wire]; omega), f.reads]
  rfl

theorem decode_start {fs : List (Frame maxMsgSize)} {buf : Bytes} (start : buf <+: stream fs)
    (small : ∀ f ∈ fs, f.wire.length < 2 ^ 32 - 4) :
    (∃ f later rest, fs = f :: later ∧ buf = f.wire ++ rest ∧ rest <+: stream later) ∨
      decode buf maxMsgSize = .error .shortRead ∧ ∀ f ∈ fs.head?, buf.length < f.wire.length := by
  cases fs with
  | nil =>
    rw [List.prefix_nil.mp start]
    exact Or.inr ⟨rfl, nofun⟩
  | cons f later =>
    rw [stream_cons] at start
    have size := f.wire_length
    have bound := small f List.mem_cons_self
    by_cases whole : f.wire.length ≤ buf.length
    · obtain ⟨rest, rfl⟩ := List.prefix_of_prefix_length_le (List.prefix_append _ _) start whole
      exact Or.inl ⟨f, later, rest, rfl, rfl, (List.prefix_append_right_inj _).mp start⟩
    · have less : buf.length < f.wire.length := Nat.lt_of_not_le whole
      have cut : buf <+: f.wire :=
        List.prefix_of_prefix_length_le start (List.prefix_append _ _) (Nat.le_of_lt less)
      refine Or.inr ⟨decode_cut cut ?_ f.legal (by omega), ?_⟩
      · rintro rfl
        exact Nat.lt_irrefl _ less
      · rintro _ ⟨⟩
        exact less

end Frame

open Frame

namespace Server

variable {σ : Type} {srv : Server σ}

theorem dispatch_job {m : Moment σ} {st : ConnState} {core : Core σ} {msg : Message}
    (submitted : (srv.dispatch m st core msg).job.isSome = true) : msg.hasType .auth = true := by
  by_contra other
  rw [dispatch, if_neg other] at submitted
  split at submitted
  · cases submitted
  · split at submitted
    · cases submitted
    · split at submitted <;> cases submitted

def taken (p : Pass σ Message) : List Message := dispatched (p.log.map .did)

theorem taken_take (p : Pass σ Message) (core : Core σ) (msg : Message) (d : Dispatched σ) :
    taken (p.take core msg d) = taken p ++ [msg] := by
  rw [taken, Pass.sights_take, dispatched_append, dispatched_sights]
  rfl

/-- The loop serves `done` and leaves `rest`, because an AUTH is pending or a frame is cut. -/
structure Reads (fs : List (Frame srv.maxMsgSize)) (buf : Bytes) (p : Pass σ Message)
    (r : Pass σ Message × Bytes × Action) (done later : List (Frame srv.maxMsgSize)) : Prop where
  parts : fs = done ++ later
  bytes : buf = stream done ++ r.2.1
  served : taken r.1 = taken p ++ done.map message
  returns : r.2.2 ≠ .halt
  waits : r.2.2 = .none →
    (∃ front auth, done = front ++ [auth] ∧ auth.isAuth = true ∧ r.1.state.authPending = true) ∨
      r.1.state.authPending = false ∧ ∀ f ∈ later.head?, r.2.1.length < f.wire.length

theorem Reads.cons {f : Frame srv.maxMsgSize} {fs done later : List (Frame srv.maxMsgSize)}
    {rest : Bytes} {p q : Pass σ Message} {r : Pass σ Message × Bytes × Action}
    (reads : Reads fs rest q r done later) (served : taken q = taken p ++ [f.message]) :
    Reads (f :: fs) (f.wire ++ rest) p r (f :: done) later where
  parts := by rw [reads.parts, List.cons_append]
  bytes := by
    rw [stream_cons, List.append_assoc]
    exact congrArg (f.wire ++ ·) reads.bytes
  served := by rw [reads.served, served, List.append_assoc, List.map_cons, List.singleton_append]
  returns := reads.returns
  waits none := by
    rcases reads.waits none with ⟨front, auth, rfl, asked, pending⟩ | cut
    · exact Or.inl ⟨f :: front, auth, rfl, asked, pending⟩
    · exact Or.inr cut

theorem Reads.nil {fs : List (Frame srv.maxMsgSize)} {p q : Pass σ Message} {buf : Bytes}
    {action : Action} (same : taken q = taken p) (returns : action ≠ .halt)
    (waits : action = .none →
      q.state.authPending = false ∧ ∀ f ∈ fs.head?, buf.length < f.wire.length) :
    Reads fs buf p (q, buf, action) [] fs where
  parts := rfl
  bytes := rfl
  served := by rw [same, List.map_nil, List.append_nil]
  returns := returns
  waits none := Or.inr (waits none)

theorem Reads.closes (fs : List (Frame srv.maxMsgSize)) {p q : Pass σ Message} (buf : Bytes)
    (same : taken q = taken p) : Reads fs buf p (q, buf, .close) [] fs :=
  .nil same nofun nofun

theorem Reads.cut {fs done later : List (Frame srv.maxMsgSize)} {p : Pass σ Message} {buf : Bytes}
    {r : Pass σ Message × Bytes × Action} (reads : Reads fs buf p r done later)
    (none : r.2.2 = .none) (idle : r.1.state.authPending = false) (start : buf <+: stream fs)
    {cap : Nat} (positive : 0 < cap) (small : ∀ f ∈ fs, f.wire.length ≤ cap) :
    r.2.1.length < cap := by
  rcases reads.waits none with ⟨-, -, -, -, pending⟩ | ⟨-, cut⟩
  · exact absurd (idle.symm.trans pending) Bool.false_ne_true
  · rw [reads.bytes, reads.parts, stream_append, List.prefix_append_right_inj] at start
    cases later with
    | nil =>
      rw [List.prefix_nil.mp start]
      exact positive
    | cons f later =>
      refine Nat.lt_of_lt_of_le (cut f rfl) (small f ?_)
      rw [reads.parts]
      exact List.mem_append_right _ List.mem_cons_self

theorem Next.frame {io : Io σ} {p : Pass σ Message} {buf rest : Bytes} {msg : Message}
    {d : Dispatched σ} (next : Next srv io p buf msg rest d) {fs : List (Frame srv.maxMsgSize)}
    (start : buf <+: stream fs) (fits : buf.length < 2 ^ 32 - 4)
    (small : ∀ f ∈ fs, f.wire.length < 2 ^ 32 - 4) :
    ∃ f later, fs = f :: later ∧ buf = f.wire ++ rest ∧ msg = f.message ∧ rest <+: stream later := by
  obtain ⟨payloadLen, decoded, behind⟩ := next.decoded
  rcases decode_start start small with ⟨f, later, rest', rfl, rfl, tail⟩ | ⟨short, -⟩
  · rw [f.decode_wire rest' fits] at decoded
    cases decoded
    rw [← f.wire_length, List.drop_left] at behind
    cases behind
    exact ⟨f, later, rfl, rfl, rfl, tail⟩
  · rw [short] at decoded
    cases decoded

theorem Framed.reads {io : Io σ} {p : Pass σ Message} {buf : Bytes}
    {r : Pass σ Message × Bytes × Action} (framed : Framed srv io p buf r)
    {fs : List (Frame srv.maxMsgSize)} (start : buf <+: stream fs)
    (fits : buf.length < 2 ^ 32 - 4) (small : ∀ f ∈ fs, f.wire.length < 2 ^ 32 - 4)
    (idle : p.state.authPending = false) : ∃ done later, Reads fs buf p r done later := by
  induction framed generalizing fs with
  | waits short =>
    rcases decode_start start small with ⟨f, later, rest, rfl, rfl, tail⟩ | ⟨-, cut⟩
    · rw [f.decode_wire rest fits] at short
      cases short
    · exact ⟨[], fs, .nil rfl Action.none_ne_halt fun _ => ⟨idle, cut⟩⟩
  | stuck beyond =>
    rcases decode_start start small with ⟨f, later, rest, rfl, rfl, tail⟩ | ⟨short, -⟩
    · rw [f.decode_wire rest fits] at beyond
      cases beyond
    · rw [short] at beyond
      cases beyond
  | @refused p buf => exact ⟨[], fs, .closes fs buf rfl⟩
  | @handed p buf msg rest d next submitted =>
    obtain ⟨f, later, rfl, rfl, rfl, tail⟩ := next.frame start fits small
    have asked : f.message.hasType .auth = true := by
      apply dispatch_job
      rw [next.dispatches]
      exact submitted
    refine ⟨[f], later, rfl, by simp [stream], taken_take _ _ _ _, Action.none_ne_halt,
      fun _ => Or.inl ⟨[], f, rfl, asked, next.pending submitted idle⟩⟩
  | @unwritten p buf msg rest d next answered =>
    obtain ⟨f, later, rfl, rfl, rfl, tail⟩ := next.frame start fits small
    exact ⟨[f], later, (Reads.closes later rest rfl).cons (taken_take _ _ _ _)⟩
  | @closes p buf msg rest d next answered =>
    obtain ⟨f, later, rfl, rfl, rfl, tail⟩ := next.frame start fits small
    exact ⟨[f], later, (Reads.closes later rest rfl).cons (taken_take _ _ _ _)⟩
  | @goesOn p buf msg rest d r next answered stays later ih =>
    obtain ⟨f, fs, rfl, rfl, rfl, tail⟩ := next.frame start fits small
    rw [List.length_append] at fits
    obtain ⟨done, left, reads⟩ := ih tail (by omega)
      (fun g mem => small g (List.mem_cons_of_mem f mem)) (next.idle answered idle)
    exact ⟨f :: done, left, reads.cons (taken_take _ _ _ _)⟩

def Tight (srv : Server σ) (st : ConnState) : Prop :=
  ∀ t ∈ st.tls, (st.authPending = true → t.incoming.length < t.bufCap) ∧
    ∀ (front : List (Frame srv.maxMsgSize)) (auth : Frame srv.maxMsgSize) (back : Bytes),
      t.incoming = stream front ++ auth.wire ++ back → auth.isAuth = true → back.length < t.bufCap

/-- From `p` to `q` a call served `done` of what came in at `t`, and there is room for more. -/
structure Onward (fs : List (Frame srv.maxMsgSize)) (p : Pass σ Message) (t : Tls)
    (q : Pass σ Message) (t' : Tls) (done later : List (Frame srv.maxMsgSize)) : Prop where
  encrypted : q.state.tls = some t'
  cap : t'.bufCap = t.bufCap
  room : t'.readBuf.length < t'.bufCap
  parts : fs = done ++ later
  bytes : t.incoming = stream done ++ t'.incoming
  served : taken q = taken p ++ done.map message

theorem handleDecryptedFrames_reads (io : Io σ) {p : Pass σ Message} {t : Tls}
    {fs : List (Frame srv.maxMsgSize)} (encrypted : p.state.tls = some t)
    (start : t.incoming <+: stream fs) (cap : t.bufCap < 2 ^ 32 - 4)
    (small : ∀ f ∈ fs, f.wire.length ≤ t.bufCap) (tight : srv.Tight p.state) :
    (srv.handleDecryptedFrames io p t).2 ≠ .halt ∧
      ((srv.handleDecryptedFrames io p t).2 = .none → ∃ t' done later,
        Onward fs p t (srv.handleDecryptedFrames io p t).1 t' done later ∧
          t'.unread = t.unread ∧ srv.Tight (srv.handleDecryptedFrames io p t).1.state) := by
  have fits := t.fits
  have positive := t.positive
  unfold handleDecryptedFrames serveFrames
  by_cases pending : p.state.authPending = true
  · rw [if_pos pending]
    refine ⟨Action.none_ne_halt,
      fun _ => ⟨t, [], fs, ⟨encrypted, rfl, ?_, rfl, rfl, by simp⟩, rfl, tight⟩⟩
    have less := (tight t encrypted).1 pending
    rw [Tls.incoming, List.length_append] at less
    omega
  rw [if_neg pending]
  have before : t.readBuf <+: stream fs := (List.prefix_append _ _).trans start
  have framed : Framed srv io p t.readBuf _ := srv.frames_framed io (Nat.le_refl t.readBuf.length)
  obtain ⟨done, later, reads⟩ := framed.reads before (by omega)
    (fun f mem => Nat.lt_of_le_of_lt (small f mem) cap) (eq_false_of_ne_true pending)
  have same := framed.tls.1
  generalize srv.frames io t.readBuf.length p t.readBuf = r at *
  simp only
  split
  · rename_i stopped
    exact ⟨reads.returns, fun none => absurd none stopped⟩
  rename_i through
  refine ⟨Action.none_ne_halt, fun _ => ?_⟩
  have left : t.readBuf.drop (t.readBuf.length - r.2.1.length) = r.2.1 := by
    have whole := congrArg List.length reads.bytes
    rw [List.length_append] at whole
    rw [reads.bytes, List.length_append, Nat.add_sub_cancel, List.drop_left]
  have bytes : t.incoming = stream done ++ (r.2.1 ++ t.unread) := by
    rw [Tls.incoming, ← List.append_assoc, ← reads.bytes]
  have tls : (r.1.state.discard (t.readBuf.length - r.2.1.length)).tls =
      some (t.discard (t.readBuf.length - r.2.1.length)) := by
    simp only [ConnState.discard, same, encrypted]
  have incoming : (t.discard (t.readBuf.length - r.2.1.length)).incoming = r.2.1 ++ t.unread :=
    congrArg (· ++ t.unread) left
  have behind := (tight t encrypted).2
  have narrow : r.1.state.authPending = true → (r.2.1 ++ t.unread).length < t.bufCap := by
    intro waits
    rcases reads.waits (not_not.mp through) with ⟨front, auth, rfl, asked, -⟩ | ⟨idle, -⟩
    · refine behind front auth _ ?_ asked
      rw [bytes, stream_append, List.append_assoc, List.append_assoc]
      simp [stream]
    · exact absurd (idle.symm.trans waits) Bool.false_ne_true
  refine ⟨_, done, later, ⟨tls, rfl, ?_, reads.parts, bytes.trans (by rw [incoming]),
    reads.served⟩, rfl, ?_⟩
  · have room : r.2.1.length < t.bufCap := by
      cases waits : r.1.state.authPending with
      | true =>
        have less := narrow waits
        rw [List.length_append] at less
        omega
      | false => exact reads.cut (not_not.mp through) waits before positive small
    exact (congrArg List.length left).trans_lt room
  · rintro _ here
    cases tls.symm.trans here
    rw [incoming]
    refine ⟨fun waits => ?_, fun front auth back split => ?_⟩
    · exact narrow ((r.1.state.discard_rebuffered _).authPending.symm.trans waits)
    · refine behind (done ++ front) auth back ?_
      rw [bytes, split, stream_append]
      simp only [List.append_assoc]

/-- How a call ends: it returns, and what it leaves is unread only before the handshake. -/
def Returns (fs : List (Frame srv.maxMsgSize)) (p : Pass σ Message) (t : Tls)
    (r : Pass σ Message × Action) : Prop :=
  r.2 ≠ .halt ∧ (r.2 = .none → ∃ t' done later, Onward fs p t r.1 t' done later ∧
    (t'.handshakeCompleted = true → t'.unread = []))

theorem Onward.returns {fs done mid : List (Frame srv.maxMsgSize)} {p q : Pass σ Message}
    {t t' : Tls} {r : Pass σ Message × Action} (onward : Onward fs p t q t' done mid)
    (returns : Returns mid q t' r) : Returns fs p t r := by
  refine ⟨returns.1, fun none => ?_⟩
  obtain ⟨u, done', later, next, drained⟩ := returns.2 none
  refine ⟨u, done ++ done', later,
    ⟨next.encrypted, next.cap.trans onward.cap, next.room, ?_, ?_, ?_⟩,
    drained⟩
  · rw [onward.parts, next.parts, List.append_assoc]
  · rw [onward.bytes, next.bytes, stream_append, List.append_assoc]
  · rw [next.served, onward.served, List.map_append, List.append_assoc]

theorem turn_returns {fs : List (Frame srv.maxMsgSize)} {p : Pass σ Message} {t : Tls}
    {err : ReadError} (nothing : t.fill.2 = (false, some err))
    (same : t.fill.1.readBuf = t.readBuf) (room : t.readBuf.length < t.bufCap)
    (drained : t.fill.1.handshakeCompleted = true → t.fill.1.unread = [])
    (serve : Pass σ Message → Tls → Pass σ Message × Action)
    (goOn : Pass σ Message → Pass σ Message × Action) : Returns fs p t (p.turn t serve goOn) := by
  have onward := t.fill_onward
  have left : Onward fs p t (p.withTls t.fill.1) t.fill.1 [] fs := by
    refine ⟨rfl, onward.cap, ?_, rfl, onward.stream.symm, (List.append_nil _).symm⟩
    rw [same, onward.cap]
    exact room
  cases err with
  | notEnough =>
    rw [Pass.turn_nothing serve goOn nothing]
    exact ⟨Action.none_ne_halt, fun _ => ⟨_, _, _, left, drained⟩⟩
  | other =>
    have closes : p.turn t serve goOn = (p.withTls t.fill.1, .close) := by
      simp [Pass.turn, nothing]
    rw [closes]
    exact ⟨Action.close_ne_halt, fun stays => by cases stays⟩

theorem onTrafficTLS_reads (io : Io σ) {fuel : Nat} {p : Pass σ Message} {t : Tls}
    {fs : List (Frame srv.maxMsgSize)} (encrypted : p.state.tls = some t)
    (enough : t.available < fuel) (room : t.readBuf.length < t.bufCap)
    (start : t.incoming <+: stream fs) (cap : t.bufCap < 2 ^ 32 - 4)
    (small : ∀ f ∈ fs, f.wire.length ≤ t.bufCap) (tight : srv.Tight p.state) :
    Returns fs p t (srv.onTrafficTLS io fuel p) := by
  induction fuel generalizing p t fs with
  | zero => exact absurd enough (Nat.not_lt_zero _)
  | succ fuel ih =>
    have onward := t.fill_onward
    have filled := t.fill_filled
    have progress := @Tls.fill_available t room
    simp only [onTrafficTLS, encrypted]
    rcases read : t.fill with ⟨u, gotSome, err⟩
    rw [read] at onward filled progress
    cases filled with
    | early _ same down =>
      apply turn_returns (by rw [read]) (by rw [read]; exact same) room
      rw [read]
      intro up
      rw [onward.shaken] at up
      exact absurd (down.symm.trans up) Bool.false_ne_true
    | full _ same noRoom => exact absurd room (Nat.not_lt.mpr (Nat.le_of_eq noRoom.symm))
    | empty _ same less nothing =>
      apply turn_returns (by rw [read]) (by rw [read]; exact same) room
      rw [read]
      exact fun _ => (onward.unread same).trans nothing
    | data _ _ _ got less present up known =>
      have tight' : srv.Tight (p.withTls u).state := by
        rintro _ ⟨⟩
        rw [onward.stream, onward.cap]
        exact tight t encrypted
      have served := @handleDecryptedFrames_reads σ srv io (p.withTls u) u fs rfl
        (onward.stream ▸ start) (onward.cap ▸ cap) (onward.cap ▸ small) tight'
      simp only [Pass.turn, read, if_pos got]
      generalize srv.handleDecryptedFrames io (p.withTls u) u = r at *
      by_cases stopped : r.2 = .none
      · rw [if_neg (not_not.mpr stopped)]
        cases err with
        | some e =>
          cases e with
          | notEnough => rcases known with wrong | ⟨wrong, -⟩ <;> cases wrong
          | other => exact ⟨Action.close_ne_halt, fun stays => by cases stays⟩
        | none =>
          obtain ⟨t', done, later, next, unread, tight''⟩ := served.2 stopped
          have first : Onward fs p t r.1 t' done later :=
            ⟨next.encrypted, next.cap.trans onward.cap, next.room, next.parts,
              onward.stream.symm.trans next.bytes, next.served⟩
          have fewer : t'.available < fuel := by
            have less : u.available < t.available := (progress rfl).1
            rw [Tls.available_eq, unread, ← Tls.available_eq]
            omega
          have rest : t'.incoming <+: stream later := by
            rw [first.bytes, first.parts, stream_append, List.prefix_append_right_inj] at start
            exact start
          refine first.returns (ih next.encrypted fewer next.room rest (first.cap ▸ cap) ?_ tight'')
          intro f mem
          rw [first.cap]
          exact small f (first.parts ▸ List.mem_append_right done mem)
      · rw [if_pos stopped]
        exact ⟨served.1, fun none => absurd none stopped⟩

/-- The connection dispatched `D`, the frames `done`, off the stream `S` of `fs`. -/
structure Reading (fs : List (Frame srv.maxMsgSize)) (S : Bytes) (D : List Message)
    (st : ConnState) (t : Tls) (done later : List (Frame srv.maxMsgSize)) : Prop where
  encrypted : st.tls = some t
  cap : t.bufCap = 4096
  room : t.readBuf.length < t.bufCap
  parts : fs = done ++ later
  bytes : S = stream done ++ t.incoming
  served : D = done.map message

def Follows (fs : List (Frame srv.maxMsgSize)) (S : Bytes) (D : List Message) (st : ConnState) :
    Prop :=
  ∃ t done later, Reading fs S D st t done later ∧ (t.handshakeCompleted = true → t.unread = [])

theorem Reading.call {fs done later : List (Frame srv.maxMsgSize)} {S : Bytes} {D : List Message}
    {st : ConnState} {t : Tls} (reading : Reading fs S D st t done later) (start : S <+: stream fs)
    (small : ∀ f ∈ fs, f.wire.length ≤ 4096) (tight : srv.Tight st) (io : Io σ) (core : Core σ) :
    (srv.onTraffic io core st).action ≠ .halt ∧ ((srv.onTraffic io core st).action = .none →
      Follows fs S (D ++ dispatched ((srv.onTraffic io core st).log.map .did))
        (srv.onTraffic io core st).state) := by
  have rest : t.incoming <+: stream later := by
    rw [reading.bytes, reading.parts, stream_append, List.prefix_append_right_inj] at start
    exact start
  have fit : ∀ f ∈ later, f.wire.length ≤ t.bufCap := by
    intro f mem
    rw [reading.cap]
    exact small f (reading.parts ▸ List.mem_append_right done mem)
  obtain ⟨returns, leaves⟩ := onTrafficTLS_reads io (p := .start core st) reading.encrypted
    (Nat.lt_succ_self _) reading.room rest (by rw [reading.cap]; decide) fit tight
  simp only [onTraffic, reading.encrypted, Pass.ends]
  refine ⟨returns, fun none => ?_⟩
  obtain ⟨t', done', later', onward, drained⟩ := leaves none
  refine ⟨t', done ++ done', later', ⟨onward.encrypted, onward.cap.trans reading.cap, onward.room,
    ?_, ?_, ?_⟩, drained⟩
  · rw [reading.parts, onward.parts, List.append_assoc]
  · rw [reading.bytes, onward.bytes, stream_append, List.append_assoc]
  · rw [reading.served, List.map_append]
    exact congrArg (done.map message ++ ·) onward.served

end Server

def received {σ : Type} (id : Nat) (events : List (Happening σ)) : Bytes :=
  arrivals (fun io => io.arrival.records.flatten) id events

namespace Server

variable {σ : Type} (srv : Server σ)

/-- When the handler runs, nothing that came in behind an AUTH fills the buffer. -/
def Spacious (id : Nat) (w : EventLoop.World (Core σ) ConnState AuthJob Verdict) :
    Happening σ → Prop
  | .readable k io => k = id → ∀ c ∈ w.conns id, srv.Tight (c.state.receive io.arrival)
  | .task k _ => k = id → ∀ c ∈ w.conns id, srv.Tight c.state
  | _ => True

variable {srv} {fs : List (Frame srv.maxMsgSize)} {S : Bytes} {D : List Message}

theorem Follows.of_tls {st st' : ConnState} (follows : Follows fs S D st)
    (same : st'.tls = st.tls) :
    Follows fs S D st' := by
  obtain ⟨t, done, later, reading, drained⟩ := follows
  exact ⟨t, done, later, ⟨same.trans reading.encrypted, reading.cap, reading.room, reading.parts,
    reading.bytes, reading.served⟩, drained⟩

theorem Follows.wake {st : ConnState} (follows : Follows fs S D st) (start : S <+: stream fs)
    (small : ∀ f ∈ fs, f.wire.length ≤ 4096) (tight : srv.Tight st) (io : Io σ) (core : Core σ) :
    (srv.onTraffic io core st).action ≠ .halt ∧ ((srv.onTraffic io core st).action = .none →
      Follows fs S (D ++ dispatched ((srv.onTraffic io core st).log.map .did))
        (srv.onTraffic io core st).state) := by
  obtain ⟨t, done, later, reading, -⟩ := follows
  exact reading.call start small tight io core

theorem Follows.receive {st : ConnState} (follows : Follows fs S D st) {io : Io σ}
    (start : S ++ io.arrival.records.flatten <+: stream fs)
    (small : ∀ f ∈ fs, f.wire.length ≤ 4096) (tight : srv.Tight (st.receive io.arrival))
    (core : Core σ) :
    let r := srv.onTraffic io core (st.receive io.arrival)
    r.action ≠ .halt ∧ (r.action = .none → Follows fs (S ++ io.arrival.records.flatten)
      (D ++ dispatched (r.log.map .did)) r.state) := by
  obtain ⟨t, done, later, reading, -⟩ := follows
  have next : Reading fs (S ++ io.arrival.records.flatten) D (st.receive io.arrival)
      (t.receive io.arrival) done later := by
    refine ⟨?_, reading.cap, reading.room, reading.parts, ?_, reading.served⟩
    · simp only [ConnState.receive, reading.encrypted]
    · rw [reading.bytes, Tls.receive_incoming, List.append_assoc]
  exact next.call start small tight io core

def Kept (fs : List (Frame srv.maxMsgSize)) (id : Nat) (events : List (Happening σ))
    (seen : List (Sight σ Message)) (conn : Option (Conn ConnState AuthJob Verdict)) : Prop :=
  received id events <+: stream fs →
    ∀ c ∈ conn, Follows fs (received id events) (dispatched seen) c.state

theorem Kept.turn (small : ∀ f ∈ fs, f.wire.length ≤ 4096)
    {w : EventLoop.World (Core σ) ConnState AuthJob Verdict} {id : Nat}
    {events : List (Happening σ)}
    {seen : List (Sight σ Message)} {ev : Happening σ} (spacious : srv.Spacious id w ev)
    (kept : Kept fs id events seen (w.conns id)) {conn : Option (Conn ConnState AuthJob Verdict)}
    {log : List (Sight σ Message)} (turn : w.Turn srv.frontEnd.listener id ev conn log) :
    Kept fs id (events ++ [ev]) (seen ++ log) conn := by
  unfold Kept received at *
  rw [arrivals_append]
  intro start
  have before := kept ((List.prefix_append _ _).trans start)
  cases turn with
  | idle unread =>
    rw [arrivals_other _ unread, List.append_nil, List.append_nil]
    exact before
  | refused io gone => exact fun _ here => by cases here
  | readable io c there =>
    intro c' here
    obtain ⟨stays, rfl⟩ := Served.mem_left here
    rw [arrivals_readable] at start ⊢
    rw [dispatched_append]
    exact ((before c there).receive start small (spacious rfl c there) w.backend).2 stays
  | wake io c tasks there first =>
    intro c' here
    obtain ⟨stays, rfl⟩ := Served.mem_left here
    rw [arrivals_other _ (fun _ same => by cases same), List.append_nil] at start ⊢
    rw [dispatched_append]
    exact ((before c there).wake start small (spacious rfl c there) io w.backend).2 stays
  | broken io c job v tasks there first ends => exact fun _ here => by cases here
  | finish io c job v tasks there first stays =>
    rintro _ ⟨⟩
    rw [arrivals_other _ (fun _ same => by cases same), List.append_nil] at start ⊢
    have served := ((before c there).wake start small (spacious rfl c there) io w.backend).2 stays
    rw [← List.append_assoc, dispatched_append, dispatched_append]
    refine Follows.of_tls ?_ (callback_kept srv.access srv.frontEnd.reply io _ _ job v).1
    exact (List.append_nil (dispatched seen ++ _)).symm ▸ served
  | closed io c tasks there first => exact fun _ here => by cases here
  | verified i job oracle c there busy =>
    rintro _ ⟨⟩
    rw [arrivals_other _ (fun _ same => by cases same), List.append_nil, List.append_nil]
    exact before c there
  | expire c there =>
    rintro _ ⟨⟩
    rw [arrivals_other _ (fun _ same => by cases same), List.append_nil, List.append_nil]
    exact before c there
  | hangup => exact fun _ here => by cases here

theorem Follows.all {st : ConnState} (follows : Follows fs S D st)
    (shaken : ∀ t ∈ st.tls, t.handshakeCompleted = true)
    (clear : srv.complete st.buffer = false) {front : List (Frame srv.maxMsgSize)}
    (start : front <+: fs) (whole : stream front <+: S) : front.map message <+: D := by
  obtain ⟨t, done, later, reading, drained⟩ := follows
  have rest : t.incoming = t.readBuf := by
    rw [Tls.incoming, drained (shaken t reading.encrypted), List.append_nil]
  have bytes := reading.bytes
  rw [rest] at bytes
  rw [reading.served]
  rcases Nat.le_total front.length done.length with shorter | longer
  · have part : front <+: done :=
      List.prefix_of_prefix_length_le start (reading.parts ▸ List.prefix_append _ _) shorter
    exact part.map message
  · obtain ⟨more, rfl⟩ : done <+: front :=
      List.prefix_of_prefix_length_le (reading.parts ▸ List.prefix_append _ _) start longer
    cases more with
    | nil => exact (congrArg (List.map message) (List.append_nil done)).symm ▸ List.prefix_rfl
    | cons f more =>
      exfalso
      rw [bytes, stream_append, List.prefix_append_right_inj, stream_cons] at whole
      obtain ⟨behind, split⟩ := (List.prefix_append f.wire (stream more)).trans whole
      have fits := t.fits
      rw [reading.cap, ← split] at fits
      have decoded := f.decode_wire behind (Nat.lt_of_le_of_lt fits (by decide))
      rw [split] at decoded
      rw [ConnState.buffer_some reading.encrypted, complete, decoded] at clear
      cases clear

end Server

end Tellstone.Network
