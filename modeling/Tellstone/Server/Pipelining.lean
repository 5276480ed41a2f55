import Tellstone.Network.Pairing
import Tellstone.Network.Reading
import Tellstone.Resp.Dispatch
import Tellstone.Resp.Segmentation
import Tellstone.Resp.Upgrade
import Tellstone.Server.Authentication

/-! Pipelined commands: how they arrive over plaintext, what gets past a STARTTLS, and what is
stranded over TLS. -/
namespace Tellstone
open ByteStream EventLoop Frontend

section
variable {σ : Type}

/-- Two connections with one stream, cut and timed in any way, whose AUTHs come to the same
dispatch the same commands and close behind the same one. -/
theorem dispatch_independent_of_segmentation (srv : Resp.Server σ) (plain : srv.tls = false)
    (off : srv.startTLS = false) (a b : Session σ)
    (aSmooth : (a.accepted srv.frontEnd.listener).Along srv.frontEnd.listener
      (Resp.Smooth (a.id srv.frontEnd.listener)) a.events)
    (bSmooth : (b.accepted srv.frontEnd.listener).Along srv.frontEnd.listener
      (Resp.Smooth (b.id srv.frontEnd.listener)) b.events)
    (aSettled : Settled ConnState.authPending (a.conn srv.frontEnd.listener))
    (bSettled : Settled ConnState.authPending (b.conn srv.frontEnd.listener))
    (sameStream : Resp.stream (a.id srv.frontEnd.listener) a.events =
      Resp.stream (b.id srv.frontEnd.listener) b.events)
    (sameOutcomes : Resp.Agree (srv.outcomes (a.seen srv.frontEnd.listener))
      (srv.outcomes (b.seen srv.frontEnd.listener))) :
    dispatched (a.seen srv.frontEnd.listener) = dispatched (b.seen srv.frontEnd.listener) ∧
      (a.conn srv.frontEnd.listener = none ↔ b.conn srv.frontEnd.listener = none) := by
  obtain ⟨_, first⟩ := (srv.life_synced off plain a aSmooth).final aSettled
  obtain ⟨_, second⟩ := (srv.life_synced off plain b bSmooth).final bSettled
  rw [← sameStream] at second
  exact first.unique second sameOutcomes

end

theorem Frontend.Io.sends_writes (bytes : Bytes) : Resp.Writes (.sends bytes) := ⟨fun _ => rfl, rfl⟩

def Frontend.firstLife (events : Events Backend) : Session Backend := ⟨.empty, [], .sends [], events⟩

def Resp.atOnce : Session Backend :=
  firstLife (attempt (sendAuth "pw" ++ sendGet ++ ascii "*1\r\n$4\r\nQUIT\r\n") ++ runNext)

/-- The same bytes cut within the AUTH, and within the GET while the AUTH is verified. -/
def Resp.inPieces : Session Backend :=
  firstLife ([.readable 0 (.sends ((sendAuth "pw").take 9)),
    .readable 0 (.sends ((sendAuth "pw").drop 9 ++ sendGet.take 6)), .take,
    .readable 0 (.sends (sendGet.drop 6)), .verified 0 none] ++ runNext ++ runNext ++
    [.readable 0 (.sends (ascii "*1\r\n$4\r\nQUIT\r\n"))])

theorem dispatch_independent_of_pieces :
    (dispatched (Resp.atOnce.seen Resp.Server.sample.frontEnd.listener) =
        [[ascii "AUTH", ascii "pw"], [ascii "GET", ascii "k"], [ascii "QUIT"]] ∧
      Resp.atOnce.conn Resp.Server.sample.frontEnd.listener = none) ∧
    dispatched (Resp.atOnce.seen Resp.Server.sample.frontEnd.listener) =
        dispatched (Resp.inPieces.seen Resp.Server.sample.frontEnd.listener) ∧
      (Resp.atOnce.conn Resp.Server.sample.frontEnd.listener = none ↔
        Resp.inPieces.conn Resp.Server.sample.frontEnd.listener = none) := by
  refine ⟨⟨by decide +kernel, by decide +kernel⟩,
    dispatch_independent_of_segmentation .sample rfl rfl Resp.atOnce Resp.inPieces ?_ ?_
      (by decide +kernel) (by decide +kernel) (by decide +kernel) ?_⟩
  · exact ⟨fun _ => ⟨Io.sends_writes _, by decide +kernel⟩, trivial, trivial,
      fun _ => ⟨Io.sends_writes _, by decide +kernel⟩,
      fun _ => ⟨Io.sends_writes _, by decide +kernel⟩, trivial⟩
  · exact ⟨fun _ => ⟨Io.sends_writes _, by decide +kernel⟩,
      fun _ => ⟨Io.sends_writes _, by decide +kernel⟩, trivial,
      fun _ => ⟨Io.sends_writes _, by decide +kernel⟩, trivial,
      fun _ => ⟨Io.sends_writes _, by decide +kernel⟩,
      fun _ => ⟨Io.sends_writes _, by decide +kernel⟩,
      fun _ => ⟨Io.sends_writes _, by decide +kernel⟩, trivial⟩
  · have same : Resp.Server.sample.outcomes (Resp.atOnce.seen Resp.Server.sample.frontEnd.listener) =
        Resp.Server.sample.outcomes (Resp.inPieces.seen Resp.Server.sample.frontEnd.listener) := by
      decide +kernel
    rw [same]
    exact Resp.Agree.refl _

section
variable {σ : Type}

/-- A TLS connection holds no plaintext. Another is upgraded only by a buffer that is one
STARTTLS, and nothing beside one is dispatched, then or later. -/
theorem starttls_boundary (srv : Resp.Server σ) (on : srv.startTLS = true) (l : Session σ)
    (c : Conn ConnState AuthJob Verdict) (there : l.conn srv.frontEnd.listener = some c) :
    (c.state.tls ≠ none → c.state.inbound = []) ∧
    (∀ io core st, st = c.state ∨ st = c.state.receive io.arrival → st.tls = none →
      Resp.Server.Boundary st (srv.onTraffic io core st)) ∧
    (c.state.tls = none → Resp.Pipelined c.state.inbound → ∀ later : Events σ,
      dispatched (own (l.id srv.frontEnd.listener)
          ((l.last srv.frontEnd.listener).run srv.frontEnd.listener later).2) = [] ∧
        ∀ c' ∈ ((l.last srv.frontEnd.listener).run srv.frontEnd.listener later).1.conns
            (l.id srv.frontEnd.listener),
          c'.state.tls = none ∧ Resp.Pipelined c'.state.inbound) := by
  have apart : Resp.Server.Apart c.state :=
    l.preserves (Resp.Server.apart_preserves on) ⟨rfl, fun _ => rfl⟩ c there
  refine ⟨apart.empty, ?_, ?_⟩
  · intro io core st called plaintext
    have plain : st.upgradeTLS = false := by
      rcases called with rfl | rfl
      · exact apart.plain
      · exact (apart.receive io.arrival).plain
    exact (Resp.Server.onTraffic_boundary on io core plain plaintext).1
  · intro plaintext pipelined later
    have refused : ∀ c' ∈ (l.last srv.frontEnd.listener).conns (l.id srv.frontEnd.listener),
        Resp.Server.Refused c'.state := by
      intro c' here
      cases here.symm.trans there
      exact ⟨apart.plain, plaintext, pipelined⟩
    obtain ⟨left, silent⟩ :=
      World.run_preserves (Resp.Server.refused_preserves on) l.known refused later
    constructor
    · rw [dispatched, List.filterMap_eq_nil_iff]
      intro o mem
      cases o with
      | did n => exact (silent n mem).elim
      | finished s job v => rfl
    · intro c' here
      exact ⟨(left c' here).plaintext, (left c' here).pipelined⟩

end

def Resp.sendStartTLS : Bytes := ascii "*1\r\n$8\r\nSTARTTLS\r\n"

def Resp.sendPing : Bytes := ascii "*1\r\n$4\r\nPING\r\n"

def Resp.Server.sampleUpgrade : Resp.Server Backend := { sample with tls := true, startTLS := true }

theorem starttls_boundary_upgraded :
    ∃ c, (firstLife [.readable 0 (.sends Resp.sendStartTLS)]).conn
        Resp.Server.sampleUpgrade.frontEnd.listener = some c ∧
      c.state.tls = some .server ∧ c.state.inbound = [] := by
  obtain ⟨c, there⟩ : ∃ c, (firstLife [.readable 0 (.sends Resp.sendStartTLS)]).conn
      Resp.Server.sampleUpgrade.frontEnd.listener = some c :=
    Option.isSome_iff_exists.mp (by decide +kernel)
  have upgraded : ∀ c ∈ (firstLife [.readable 0 (.sends Resp.sendStartTLS)]).conn
      Resp.Server.sampleUpgrade.frontEnd.listener, c.state.tls = some .server := by
    decide +kernel
  refine ⟨c, there, upgraded c there, ?_⟩
  apply (starttls_boundary .sampleUpgrade rfl _ c there).1
  rw [upgraded c there]
  exact Option.some_ne_none _

/-- While an AUTH is verified, a STARTTLS behind a PING does not close the connection. -/
theorem pipelined_starttls_waits :
    Resp.Pipelined (Resp.sendPing ++ Resp.sendStartTLS) ∧
      (∀ c ∈ (firstLife [.readable 0 (.sends (Resp.sendAuth "pw"))]).conn
          Resp.Server.sampleUpgrade.frontEnd.listener, c.state.tls = none ∧ c.state.inbound = []) ∧
      (((firstLife [.readable 0 (.sends (Resp.sendAuth "pw"))]).last
          Resp.Server.sampleUpgrade.frontEnd.listener).call
          Resp.Server.sampleUpgrade.frontEnd.listener 0
          (.readable 0 (.sends (Resp.sendPing ++ Resp.sendStartTLS)))).map Served.action =
        some .none :=
  ⟨Resp.Server.hasPipelinedSTARTTLS_iff.mp (by decide +kernel), by decide +kernel,
    by decide +kernel⟩

section
variable {σ : Type}

/-- Complete commands are left in the buffer of an idle connection exactly if a wake-up found one
there and the TLS layer had nothing to read. -/
theorem nothing_stranded_iff (resp : Resp.Server σ) (binary : Network.Server σ) (l : Session σ) :
    (NothingStranded resp.frontEnd Resp.complete l ↔
      (l.accepted resp.frontEnd.listener).Along resp.frontEnd.listener
        (WakesToRead Resp.complete Resp.Server.grow (l.id resp.frontEnd.listener)) l.events) ∧
    (NothingStranded binary.frontEnd binary.complete l ↔
      (l.accepted binary.frontEnd.listener).Along binary.frontEnd.listener
        (WakesToRead binary.complete some (l.id binary.frontEnd.listener)) l.events) :=
  ⟨resp.drains.nothingStranded_iff l, binary.drains.nothingStranded_iff l⟩

end

def Frontend.Io.encrypts (records : List Bytes) : Io Backend :=
  { Io.sends [] with arrival := ⟨[], true, records, .quiet⟩ }

/-- An AUTH and a GET in one record. The AUTH is verified, and its wake-up runs. -/
def Frontend.loginTls (auth get : Bytes) : Session Backend :=
  firstLife ([.readable 0 (.encrypts [auth ++ get]), .take, .verified 0 none] ++ runNext ++ runNext)

def Resp.Server.sampleTls : Resp.Server Backend := { sample with tls := true }

def Network.Server.sampleTls : Network.Server Backend := { sample with tls := true }

theorem get_stranded_behind_auth :
    (((loginTls (Resp.sendAuth "pw") Resp.sendGet).conn
          Resp.Server.sampleTls.frontEnd.listener).map
        (fun c => (c.state.authenticated, c.state.buffer)) = some (true, Resp.sendGet) ∧
      ((loginTls (Network.sendAuth "pw") Network.sendGet).conn
          Network.Server.sampleTls.frontEnd.listener).map
        (fun c => (c.state.authenticated, c.state.buffer)) = some (true, Network.sendGet)) ∧
    ¬NothingStranded Resp.Server.sampleTls.frontEnd Resp.complete
        (loginTls (Resp.sendAuth "pw") Resp.sendGet) ∧
      ¬NothingStranded Network.Server.sampleTls.frontEnd Network.Server.sampleTls.complete
        (loginTls (Network.sendAuth "pw") Network.sendGet) := by
  refine ⟨⟨by decide +kernel, by decide +kernel⟩, fun nothing => ?_, fun nothing => ?_⟩
  · have last := nothing 5
    revert last
    decide +kernel
  · have last := nothing 5
    revert last
    decide +kernel

section
variable {σ : Type}

end

section
variable {σ : Type}

/-- A frame has one answer exactly if it is not a PING, at once or from the callback. The answers
are in order and pair up with the requests exactly if no PING comes before another frame or on a
connection that is still open. -/
theorem binary_answers (srv : Network.Server σ) (pl : Platform) :
    (∀ m st core msg, ((srv.administered pl).dispatch m st core msg).job = none →
      (Network.OneFrame ((srv.administered pl).dispatch m st core msg).out ↔
        msg.hasType .ping = false ∧
          ((srv.administered pl).dispatch m st core msg).out.length < 2 ^ 32 + 4)) ∧
    (∀ m st core msg, ((srv.administered pl).dispatch m st core msg).job.isSome = true →
      ((srv.administered pl).dispatch m st core msg).out = []) ∧
    (∀ io core st job v,
      (io.callback.writeFails = true →
        ((srv.administered pl).frontEnd.listener.finish io core st job v).closes = true ∧
          ((srv.administered pl).frontEnd.listener.finish io core st job v).state.sent = st.sent) ∧
      (io.callback.writeFails = false → ∃ answer, Network.OneFrame answer ∧
        ((srv.administered pl).frontEnd.listener.finish io core st job v).state.sent =
          st.sent ++ answer)) ∧
    ∀ l : Session σ,
      (l.accepted (srv.administered pl).frontEnd.listener).Along
        (srv.administered pl).frontEnd.listener
        (fun _ => Network.Server.Delivers (l.id (srv.administered pl).frontEnd.listener))
        l.events →
      (∀ o ∈ l.seen (srv.administered pl).frontEnd.listener, (srv.administered pl).Sized o) →
      (Network.Paired (l.seen (srv.administered pl).frontEnd.listener)
          (l.conn (srv.administered pl).frontEnd.listener) ↔
        (∀ msg ∈ (dispatched (l.seen (srv.administered pl).frontEnd.listener)).dropLast,
          msg.hasType .ping = false) ∧
        (l.conn (srv.administered pl).frontEnd.listener ≠ none →
          ∀ msg ∈ dispatched (l.seen (srv.administered pl).frontEnd.listener),
            msg.hasType .ping = false)) := by
  have responsive := srv.administered_responsive pl
  refine ⟨Network.dispatch_oneFrame responsive, ?_, ?_, ?_⟩
  · intro m st core msg handed
    have request : msg.hasType .ping = false := by
      by_contra ping
      rw [(Network.dispatch_ping _ m st core msg (eq_true_of_ne_false ping)).2] at handed
      cases handed
    obtain ⟨done, -⟩ | ⟨-, nothing⟩ := responsive m st core msg request
    · rw [done] at handed
      cases handed
    · exact nothing
  · intro io core st job v
    obtain ⟨fails, succeeds⟩ := (srv.administered pl).callback_sent io core st job v
    exact ⟨fails, fun fine => ⟨_, Network.reply_oneFrame _ _, succeeds fine⟩⟩
  · intro l delivers sized
    obtain ⟨order, caught⟩ := Network.Server.life_pairs responsive l delivers sized
    exact Network.paired_iff order caught

end

def Network.Server.sampleAdmin : Network.Server Backend := .administered .sample Resp.terse

def Network.neverIn (seen : List (Sight Backend Message)) : Bool :=
  seen.all fun
    | .did (.served st _) => !st.authenticated
    | _ => true

theorem Network.sized_of_neverIn {seen : List (Sight Backend Message)}
    (never : neverIn seen = true) : ∀ o ∈ seen, Server.sampleAdmin.Sized o := by
  intro o mem
  have refused := List.all_eq_true.mp never o mem
  match o with
  | .did (.served st e) =>
    intro m
    exact dispatch_refused _ m _ _ (by simpa using refused)
  | .did (.submitted _ _) => trivial
  | .finished _ _ _ => trivial

def Network.refusedThenIn : Session Backend :=
  firstLife (attempt (sendGet ++ sendAuth "pw"))

theorem binary_answers_auth :
    ((Network.refusedThenIn.conn Network.Server.sampleAdmin.frontEnd.listener).map
        fun c => c.state.sent) =
      some (Network.invalidAuth ++ Network.write .authOk Network.responseOK) ∧
    Network.Paired (Network.refusedThenIn.seen Network.Server.sampleAdmin.frontEnd.listener)
      (Network.refusedThenIn.conn Network.Server.sampleAdmin.frontEnd.listener) := by
  refine ⟨by decide +kernel, ?_⟩
  refine ((binary_answers Network.Server.sample Resp.terse).2.2.2 Network.refusedThenIn ?_
    (Network.sized_of_neverIn (by decide +kernel))).mpr ⟨by decide +kernel, fun _ => ?_⟩
  · exact ⟨nofun, nofun, nofun, fun io same => by cases same; rfl, trivial⟩
  · decide +kernel

def Network.sendPing : Bytes := write .ping []

/-- A PING and a GET at once: the answer to the GET is the first that the client reads. -/
def Network.pingThenGet : Session Backend :=
  firstLife [.readable 0 (.sends (sendPing ++ sendGet))]

theorem ping_unanswered :
    ((dispatched (Network.pingThenGet.seen Network.Server.sampleAdmin.frontEnd.listener)).map
        fun msg => msg.hasType .ping) = [true, false] ∧
    ((Network.pingThenGet.conn Network.Server.sampleAdmin.frontEnd.listener).map
        fun c => c.state.sent) = some Network.invalidAuth ∧
    ¬Network.Paired (Network.pingThenGet.seen Network.Server.sampleAdmin.frontEnd.listener)
      (Network.pingThenGet.conn Network.Server.sampleAdmin.frontEnd.listener) := by
  refine ⟨by decide +kernel, by decide +kernel, fun paired => ?_⟩
  obtain ⟨order, caught⟩ := Network.Server.life_pairs
    (Network.Server.sample.administered_responsive Resp.terse) Network.pingThenGet ⟨nofun, trivial⟩
    (Network.sized_of_neverIn (by decide +kernel))
  have unpinged := ((Network.paired_iff order caught).mp paired).1
  revert unpinged
  decide +kernel

end Tellstone
