import Tellstone.Network.Server

/-! The binary listener dispatches frame after frame, each behind the authentication gate. -/
namespace Tellstone.Network
open ByteStream EventLoop Frontend

namespace Server

section
variable {σ : Type} (srv : Server σ) (m : Moment σ) (st : ConnState) (core : Core σ)
  (msg : Message)

def authHash (username : Bytes) : Option Bytes :=
  match srv.access with
  | .unrestricted => none
  | .password hash => if authUser username = ascii "default" then some hash else none
  | .policy _ =>
    (core.policy.active.bind fun p => p.userFor (authUser username)).map Rbac.User.passwordHash

/-- A job checks what the AUTH sent, as a token or against the hash of the user. -/
def Verifies (job : AuthJob) : Prop :=
  ∃ username, parseAuthPayload msg.value = some (username, job.password) ∧
    (job.oauth = true ∧ srv.access = .policy true ∨
      job.oauth = false ∧ srv.authHash core username = some job.passHash)

theorem handleAuthMessage_sound (passwordless : Prop) :
    (srv.handleAuthMessage m st core msg.value).Sound passwordless (srv.Verifies core msg) st
      core := by
  unfold handleAuthMessage
  split
  · exact .unchanged rfl
  · exact .rejected ..
  · rename_i oauth username password access parsed
    split
    · rename_i token
      exact .submit m _ ⟨username, parsed, Or.inl ⟨rfl, by rw [access, token.1]⟩⟩
    cases loaded : core.policy.active with
    | none => exact .rejected ..
    | some p =>
      cases known : p.userFor (authUser username) with
      | none =>
        simp only [known]
        exact .rejected ..
      | some u =>
        simp only [known]
        refine .submit m _ ⟨username, parsed, Or.inr ⟨rfl, ?_⟩⟩
        simp only [authHash, access, loaded, Option.bind_some, known, Option.map_some]
  · rename_i hash username password access parsed
    split
    · exact .rejected ..
    · rename_i isDefault
      refine .submit m _ ⟨username, parsed, Or.inr ⟨rfl, ?_⟩⟩
      simp only [authHash, access, if_pos (not_not.mp isDefault)]

theorem networkHandler_other {msg : Message} (harmless : msg.kind.gated = false)
    (S : Command.Store σ) (now : Nat) (admin : Admin) (remote : Bytes) (policy : Option Rbac.Store)
    (s : σ) :
    (networkHandler S now admin msg remote policy s).store = s ∧
      (networkHandler S now admin msg remote policy s).policy = policy := by
  unfold Message.kind at harmless
  unfold networkHandler
  split
  · exact ⟨rfl, rfl⟩
  rename_i notPing
  rw [if_neg notPing] at harmless
  cases op : msg.opCode with
  | none => exact ⟨rfl, rfl⟩
  | some op' =>
    rw [op] at harmless
    cases op' <;> cases harmless

theorem opAuthorized_known {msg : Message} {st : ConnState} (harmless : msg.kind.gated = false)
    (request : msg.hasType .auth = false) (authorized : opAuthorized msg st = true) :
    msg.hasType .ping = true := by
  by_contra notPing
  unfold Message.kind at harmless
  rw [if_neg notPing] at harmless
  unfold opAuthorized at authorized
  rw [eq_false_of_ne_true notPing, request, Bool.false_or, Bool.false_or,
    Option.any_eq_true] at authorized
  obtain ⟨s, -, allowed⟩ := authorized
  cases op : msg.opCode with
  | none =>
    rw [op] at allowed
    cases allowed
  | some op' =>
    rw [op] at harmless
    cases op' <;> cases harmless

theorem runHandler_sound {passwordless : Prop} {verifies : AuthJob → Prop}
    (request : msg.hasType .auth = false)
    (passed : st.authenticated = true ∨ msg.hasType .ping = true)
    (authorized : srv.access.policy? core = none ∨ opAuthorized msg st = true) :
    (srv.runHandler m st core msg).Sound passwordless verifies st core := by
  refine .of_plain (.refl st) rfl rfl ?_ ?_
  · intro reached
    rcases passed with authenticated | ping
    · exact authenticated
    · have other : msg.kind = .other := by rw [Message.kind, if_pos ping]
      have gated : msg.kind.gated = true := reached
      rw [other] at gated
      cases gated
  · intro harmless
    have same (policy : Option Rbac.Store) := networkHandler_other harmless (srv.store m.now) m.now
      (srv.admin m.salt) st.remoteAddr policy core.store
    unfold runHandler
    simp only [same]
    cases access : srv.access.policy? core with
    | none => rfl
    | some policy =>
      have own : policy = core.policy := by
        unfold Access.policy? at access
        split at access <;> cases access
        rfl
      rcases authorized with none | authorized
      · rw [access] at none
        cases none
      · rw [opAuthorized_known harmless request authorized, own]
        rfl

theorem dispatch_sound (passwordless : Prop) : (srv.dispatch m st core msg).Sound passwordless
    (srv.Verifies core msg) st core := by
  unfold dispatch
  split
  · exact srv.handleAuthMessage_sound m st core msg passwordless
  rename_i request
  split
  · exact .unchanged rfl
  rename_i gate
  have passed : st.authenticated = true ∨ msg.hasType .ping = true := by
    by_contra neither
    obtain ⟨out, notPing⟩ := not_or.mp neither
    exact gate ⟨eq_false_of_ne_true out, eq_false_of_ne_true notPing⟩
  split
  · rename_i access
    exact srv.runHandler_sound m st core msg (eq_false_of_ne_true request) passed (Or.inl access)
  · split
    · rename_i authorized
      exact srv.runHandler_sound m st core msg (eq_false_of_ne_true request) passed
        (Or.inr authorized)
    · rename_i unauthorized
      refine .of_plain (.refl st) rfl rfl (fun _ => ?_) nofun
      rcases passed with authenticated | ping
      · exact authenticated
      · exact absurd (by rw [opAuthorized, ping]; rfl) unauthorized

end

section
variable {σ : Type} {srv : Server σ} {io : Io σ} {p p' : Pass σ Message}

theorem dispatch_kept (srv : Server σ) (m : Moment σ) (st : ConnState) (core : Core σ)
    (msg : Message) :
    (srv.dispatch m st core msg).state.upgradeTLS = st.upgradeTLS ∧
      (srv.dispatch m st core msg).state.inbound = st.inbound ∧
      (srv.dispatch m st core msg).state.sent = st.sent := by
  have submitted (job : AuthJob) (out : Bytes) :
      (Dispatched.submit m st core job out).state.upgradeTLS = st.upgradeTLS ∧
        (Dispatched.submit m st core job out).state.inbound = st.inbound ∧
        (Dispatched.submit m st core job out).state.sent = st.sent := by
    unfold Dispatched.submit
    split <;> exact ⟨rfl, rfl, rfl⟩
  unfold dispatch handleAuthMessage
  split
  · split
    · exact ⟨rfl, rfl, rfl⟩
    · exact ⟨rfl, rfl, rfl⟩
    · split
      · exact submitted _ _
      · split
        · exact ⟨rfl, rfl, rfl⟩
        · simp only
          split
          · exact ⟨rfl, rfl, rfl⟩
          · exact submitted _ _
    · split
      · exact ⟨rfl, rfl, rfl⟩
      · exact submitted _ _
  · split
    · exact ⟨rfl, rfl, rfl⟩
    split
    · exact ⟨rfl, rfl, rfl⟩
    · split <;> exact ⟨rfl, rfl, rfl⟩

/-- The next frame of a buffer, and what its dispatch comes to. -/
structure Next (srv : Server σ) (io : Io σ) (p : Pass σ Message) (buf : Bytes) (msg : Message)
    (rest : Bytes) (d : Dispatched σ) : Prop where
  decoded : ∃ payloadLen, decode buf srv.maxMsgSize = .ok (payloadLen, msg) ∧
    rest = buf.drop (5 + payloadLen)
  dispatches :
    srv.dispatch (io.moment p.count) p.state ((io.moment p.count).others p.core) msg = d

abbrev after (io : Io σ) (p : Pass σ Message) (msg : Message) (d : Dispatched σ) :
    Pass σ Message :=
  p.take ((io.moment p.count).others p.core) msg d

inductive Framed (srv : Server σ) (io : Io σ) :
    Pass σ Message → Bytes → Pass σ Message × Bytes × Action → Prop where
  | waits {p buf} (short : decode buf srv.maxMsgSize = .error .shortRead) :
      Framed srv io p buf (p, buf, .none)
  | stuck {p buf} (beyond : decode buf srv.maxMsgSize = .error .outOfRange) :
      Framed srv io p buf (p, buf, .halt)
  | refused {p buf} : Framed srv io p buf (p, buf, .close)
  | handed {p buf msg rest d} (next : Next srv io p buf msg rest d)
      (submitted : d.job.isSome = true) : Framed srv io p buf (after io p msg d, rest, .none)
  | unwritten {p buf msg rest d} (next : Next srv io p buf msg rest d)
      (answered : d.job.isSome = false) : Framed srv io p buf (after io p msg d, rest, .close)
  | closes {p buf msg rest d} (next : Next srv io p buf msg rest d)
      (answered : d.job.isSome = false) :
      Framed srv io p buf ({ after io p msg d with state := d.state.send d.out }, rest, .close)
  | goesOn {p buf msg rest d r} (next : Next srv io p buf msg rest d)
      (answered : d.job.isSome = false) (stays : d.state.closeAfterReply = false)
      (later : Framed srv io { after io p msg d with state := d.state.send d.out } rest r) :
      Framed srv io p buf r

theorem frames_framed (srv : Server σ) (io : Io σ) {fuel : Nat} {p : Pass σ Message} {buf : Bytes}
    (enough : buf.length ≤ fuel) : Framed srv io p buf (srv.frames io fuel p buf) := by
  induction fuel generalizing p buf with
  | zero =>
    have nothing : buf = [] := List.eq_nil_of_length_eq_zero (Nat.le_zero.mp enough)
    rw [nothing]
    exact .waits rfl
  | succ fuel ih =>
    simp only [frames]
    split
    · rename_i short
      exact .waits short
    · rename_i beyond
      exact .stuck beyond
    · exact .refused
    · rename_i payloadLen msg decoded
      have next : Next srv io p buf msg (buf.drop (5 + payloadLen)) _ := ⟨⟨_, decoded, rfl⟩, rfl⟩
      split
      · rename_i submitted
        exact .handed next submitted
      rename_i answered
      split
      · exact .unwritten next (eq_false_of_ne_true answered)
      split
      · exact .closes next (eq_false_of_ne_true answered)
      · rename_i stays
        refine .goesOn next (eq_false_of_ne_true answered) (eq_false_of_ne_true stays) (ih ?_)
        rw [List.length_drop]
        omega

namespace Next

variable {buf rest : Bytes} {msg : Message} {d : Dispatched σ}

theorem sound (next : Next srv io p buf msg rest d) :
    d.Sound False (srv.Verifies ((io.moment p.count).others p.core) msg) p.state
      ((io.moment p.count).others p.core) :=
  next.dispatches ▸ srv.dispatch_sound _ _ _ _ _

theorem kept (next : Next srv io p buf msg rest d) :
    d.state.upgradeTLS = p.state.upgradeTLS ∧ d.state.inbound = p.state.inbound ∧
      d.state.sent = p.state.sent :=
  next.dispatches ▸ srv.dispatch_kept _ _ _ _

theorem idle (next : Next srv io p buf msg rest d) (answered : d.job.isSome = false)
    (idle : p.state.authPending = false) : d.state.authPending = false :=
  (next.sound.pending idle).trans answered

theorem pending (next : Next srv io p buf msg rest d) (submitted : d.job.isSome = true)
    (idle : p.state.authPending = false) : d.state.authPending = true :=
  (next.sound.pending idle).trans submitted

theorem steps (next : Next srv io p' buf msg rest d) (leads : Leads (dispatch srv) p (p', .none))
    (idle : p'.state.authPending = false) : Steps (dispatch srv) p (after io p' msg d) :=
  next.dispatches ▸ leads.steps.command (io.moment p'.count) msg idle (leads.stays rfl)

end Next

theorem Framed.leads {buf : Bytes} {r : Pass σ Message × Bytes × Action}
    (framed : Framed srv io p' buf r) (leads : Leads (dispatch srv) p (p', .none))
    (idle : p'.state.authPending = false) : Leads (dispatch srv) p (r.1, r.2.2) := by
  induction framed with
  | waits short => exact leads
  | stuck beyond => exact ⟨leads.steps, fun none => by cases none⟩
  | refused => exact ⟨leads.steps, fun none => by cases none⟩
  | handed next submitted =>
    exact ⟨next.steps leads idle,
      fun _ ready => next.sound.submits submitted (leads.stays rfl ready)⟩
  | unwritten next answered => exact ⟨next.steps leads idle, fun none => by cases none⟩
  | closes next answered =>
    exact ⟨(next.steps leads idle).buffers _ (ConnState.send_rebuffered _ _),
      fun none => by cases none⟩
  | goesOn next answered stays later ih =>
    refine ih ⟨(next.steps leads idle).buffers _ (ConnState.send_rebuffered _ _),
      fun _ ready => ?_⟩ (next.idle answered idle)
    exact ⟨stays, next.kept.1.trans (leads.stays rfl ready).plain⟩

theorem serveFrames_leads (io : Io σ) (buf : Bytes) (leads : Leads (dispatch srv) p (p', .none)) :
    Leads (dispatch srv) p (srv.serveFrames io p' buf) := by
  unfold serveFrames
  split
  · exact leads
  rename_i idle
  have served := (srv.frames_framed io (Nat.le_refl buf.length)).leads leads
    (eq_false_of_ne_true idle)
  simp only
  split
  · exact served
  · rename_i unclosed
    refine ⟨served.steps.buffers _ (ConnState.discard_rebuffered _ _), fun _ ready => ?_⟩
    obtain ⟨stays, plain⟩ := served.stays (not_not.mp unclosed) ready
    unfold ConnState.discard
    split <;> exact ⟨stays, plain⟩

theorem onTrafficTLS_leads (io : Io σ) (fuel : Nat) (leads : Leads (dispatch srv) p (p', .none)) :
    Leads (dispatch srv) p (srv.onTrafficTLS io fuel p') := by
  induction fuel generalizing p' with
  | zero => exact ⟨leads.steps, nofun⟩
  | succ fuel ih =>
    simp only [onTrafficTLS]
    split
    · exact leads
    · rename_i t encrypted
      apply leads.turn
      · intro q t' before
        exact serveFrames_leads io t'.readBuf before
      · intro q before
        exact ih before

theorem onTraffic_leads (srv : Server σ) (io : Io σ) (core : Core σ) (st : ConnState) :
    ∃ r, Leads (dispatch srv) (.start core st) r ∧ srv.onTraffic io core st = r.1.ends r.2 := by
  cases encrypted : st.tls with
  | none =>
    simp only [onTraffic, encrypted]
    exact ⟨_, serveFrames_leads io st.inbound (.refl (.start core st)), rfl⟩
  | some t =>
    simp only [onTraffic, encrypted]
    exact ⟨_, onTrafficTLS_leads io (t.available + 1) (.refl (.start core st)), rfl⟩

theorem Framed.tls {buf : Bytes} {r : Pass σ Message × Bytes × Action}
    (framed : Framed srv io p buf r) :
    r.1.state.tls = p.state.tls ∧ r.1.state.inbound = p.state.inbound := by
  induction framed with
  | waits short => exact ⟨rfl, rfl⟩
  | stuck beyond => exact ⟨rfl, rfl⟩
  | refused => exact ⟨rfl, rfl⟩
  | handed next submitted => exact ⟨next.sound.tls, next.kept.2.1⟩
  | unwritten next answered => exact ⟨next.sound.tls, next.kept.2.1⟩
  | closes next answered => exact ⟨next.sound.tls, next.kept.2.1⟩
  | goesOn next answered stays later ih =>
    exact ⟨ih.1.trans next.sound.tls, ih.2.trans next.kept.2.1⟩

theorem guarded {opensUp : Core σ → Prop}
    (opened : ∀ io core, (srv.onOpen io core).authenticated = true → opensUp core) :
    Guarded srv.frontEnd opensUp (fun _ _ => False) srv.Verifies (dispatch srv) where
  fresh _ _ := ⟨rfl, rfl, rfl, rfl⟩
  opened := opened
  traffic := srv.onTraffic_leads
  sound m st core msg := srv.dispatch_sound m st core msg False

end

end Server

end Tellstone.Network
