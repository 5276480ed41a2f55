import Tellstone.Resp.Server

/-! The RESP listener dispatches command after command, each behind the authentication
gate, and each of its calls returns. -/
namespace Tellstone.Resp
open ByteStream EventLoop Frontend

theorem eq_of_equalFold {cmd a b : Bytes} (isA : equalFold cmd a = true)
    (isB : equalFold cmd b = true) : a = b :=
  (of_decide_eq_true isA).symm.trans (of_decide_eq_true isB)

theorem lookup_of_length {cmd : Bytes} (other : cmd.length ≠ 3) : Command.lookup (some cmd) = none := by
  apply List.find?_eq_none.mpr
  intro c _
  have three : c.name.length = 3 := by cases c <;> rfl
  simp [Command.equalFoldASCII, Command.aliased, three, other]

theorem lookup_of_ungated {cmd : Bytes}
    (ungated : equalFold cmd (ascii "PING") = true ∨ equalFold cmd (ascii "QUIT") = true) :
    Command.lookup (some cmd) = none ∧
      (Family.find cmd = none ∨ equalFold cmd (ascii "PING") = true) := by
  have four : cmd.length = 4 := by
    rcases ungated with ping | quit
    · exact length_of_equalFold ping
    · exact length_of_equalFold quit
  constructor
  · exact lookup_of_length (by omega)
  · rcases ungated with ping | quit
    · exact Or.inr ping
    · refine Or.inl (List.find?_eq_none.mpr ?_)
      intro f _ isFamily
      have same := eq_of_equalFold quit isFamily
      cases f <;> exact absurd same (by decide)

namespace Server

variable {σ : Type} (srv : Server σ) (m : Moment σ) (st : ConnState) (core : Core σ)
  (args : List Bytes)

def authHash : Option Bytes :=
  match srv.access with
  | .unrestricted => none
  | .password hash => if authUser args = ascii "default" then some hash else none
  | .policy _ =>
    (core.policy.active.bind fun p => p.userFor (authUser args)).map Rbac.User.passwordHash

def Passwordless : Prop := srv.authHash core args = some []

/-- A job checks what the AUTH sent, as a token or against the hash of the user. -/
def Verifies (job : AuthJob) : Prop :=
  job.password = args.getLastD [] ∧
    (job.oauth = true ∧ srv.access = .policy true ∨
      job.oauth = false ∧ srv.authHash core args = some job.passHash)

theorem authRBAC_sound {oauth : Bool} (access : srv.access = .policy oauth) :
    (srv.authRBAC m st core args).Sound (srv.Passwordless core args) (srv.Verifies core args) st
      core := by
  cases loaded : core.policy.active with
  | none =>
    simp only [authRBAC, loaded]
    exact .rejected ..
  | some p =>
    cases known : p.userFor (authUser args) with
    | none =>
      simp only [authRBAC, loaded, known]
      exact .rejected ..
    | some u =>
      have hash : srv.authHash core args = some u.passwordHash := by
        simp only [authHash, access, loaded, Option.bind_some, known, Option.map_some]
      simp only [authRBAC, loaded, known]
      split
      · rename_i empty
        have passwordless : srv.Passwordless core args := by
          rw [Passwordless, hash, List.eq_nil_of_length_eq_zero empty]
        constructor
        · exact id
        · exact id
        · rfl
        · exact nofun
        · exact fun unmarked _ => unmarked.stays
        · exact nofun
        · exact fun _ => ⟨rfl, Or.inl rfl⟩
        · exact fun _ _ => ⟨rfl, passwordless⟩
        · exact nofun
      · exact .submit m _ ⟨rfl, Or.inr ⟨rfl, hash⟩⟩

theorem auth_sound : (srv.auth m st core args).Sound (srv.Passwordless core args)
    (srv.Verifies core args) st core := by
  unfold auth
  split
  · exact .unchanged rfl
  cases access : srv.access with
  | unrestricted => exact .unchanged rfl
  | password hash =>
    simp only
    split
    · exact .rejected ..
    · rename_i isDefault
      refine .submit m _ ⟨rfl, Or.inr ⟨rfl, ?_⟩⟩
      simp only [authHash, access, if_pos (not_not.mp isDefault)]
  | policy oauth =>
    simp only
    split
    · rename_i token
      obtain ⟨provider, two, -⟩ := token
      refine .submit m _ ⟨?_, Or.inl ⟨rfl, by rw [access, provider]⟩⟩
      obtain ⟨cmd, token, rfl⟩ := List.length_eq_two.mp two
      rfl
    · exact srv.authRBAC_sound m st core args access

theorem dispatchSTARTTLS_sound : (srv.dispatchSTARTTLS st core args).Sound
    (srv.Passwordless core args) (srv.Verifies core args) st core := by
  unfold dispatchSTARTTLS
  split
  · exact .unchanged rfl
  split
  · exact .unchanged rfl
  split
  · exact .unchanged rfl
  · exact .of_plain ⟨rfl, rfl, rfl, rfl⟩ rfl rfl nofun (fun _ => rfl)

theorem family_sound (f : Family) (passed : st.authenticated = true) :
    (srv.family m st core args f).Sound (srv.Passwordless core args) (srv.Verifies core args) st
      core := by
  unfold family
  split
  · exact .of_plain (.refl st) rfl rfl (fun _ => passed) nofun
  · split
    · exact .of_plain (.refl st) rfl rfl (fun _ => passed) nofun
    · exact .of_plain (.refl st) rfl rfl (fun _ => passed) nofun

theorem execute_sound (passed : st.authenticated = true ∨
    equalFold (args.headD []) (ascii "PING") = true ∨
    equalFold (args.headD []) (ascii "QUIT") = true) (nonempty : args ≠ []) :
    (srv.execute m st core args).Sound (srv.Passwordless core args) (srv.Verifies core args) st
      core := by
  obtain ⟨cmd, rest, rfl⟩ := List.exists_cons_of_ne_nil nonempty
  rw [List.headD_cons] at passed
  unfold execute
  simp only
  split
  · rename_i reply replied
    refine .of_plain (.refl st) rfl rfl (fun _ => ?_) nofun
    rcases passed with authenticated | ungated
    · exact authenticated
    · have unknown := (lookup_of_ungated ungated).1
      simp only [Command.execute, List.map_cons, List.head?_cons, Option.bind_some, unknown] at replied
      cases replied
  · rw [List.headD_cons]
    split
    · exact .unchanged rfl
    rename_i notPing
    split
    · rename_i f isFamily
      rcases passed with authenticated | ungated
      · exact srv.family_sound m st core _ f authenticated
      · rcases (lookup_of_ungated ungated).2 with none | ping
        · rw [none] at isFamily
          cases isFamily
        · exact absurd ping notPing
    · split
      · constructor
        · exact id
        · exact fun _ _ => rfl
        · rfl
        · exact nofun
        · exact fun unmarked up => absurd (unmarked.plain.symm.trans up) Bool.false_ne_true
        · exact nofun
        · exact fun _ => ⟨rfl, Or.inl rfl⟩
        · exact fun down up => absurd (down.symm.trans up) Bool.false_ne_true
        · exact nofun
      · split
        · exact srv.dispatchSTARTTLS_sound st core _
        · exact .unchanged rfl

theorem dispatch_sound : (srv.dispatch m st core args).Sound (srv.Passwordless core args)
    (srv.Verifies core args) st core := by
  unfold dispatch
  split
  · exact .unchanged rfl
  · rename_i cmd rest
    split
    · exact srv.auth_sound m st core _
    split
    · rename_i authenticated
      exact srv.execute_sound m st core _ (Or.inl authenticated) (List.cons_ne_nil _ _)
    split
    · exact srv.dispatchSTARTTLS_sound st core _
    split
    · rename_i ungated
      exact srv.execute_sound m st core _ (Or.inr ungated) (List.cons_ne_nil _ _)
    · exact .unchanged rfl

section
variable {srv : Server σ} {io : Io σ} {p : Pass σ (List Bytes)} {q : Processed σ}

/-- The next command of a buffer, and what its dispatch comes to. -/
structure Next (srv : Server σ) (io : Io σ) (p : Pass σ (List Bytes)) (src : Bytes)
    (args : List Bytes) (rest : Bytes) (d : Dispatched σ) : Prop where
  read : parse src = .ok (args, rest)
  dispatches :
    srv.dispatch (io.moment p.count) p.state ((io.moment p.count).others p.core) args = d

abbrev after (io : Io σ) (p : Pass σ (List Bytes)) (args : List Bytes) (d : Dispatched σ) :
    Pass σ (List Bytes) :=
  p.take ((io.moment p.count).others p.core) args d

/-- What the loop over `src` comes to, if `out` was there to be flushed. -/
inductive Looped (srv : Server σ) (io : Io σ) :
    Pass σ (List Bytes) → Bytes → Bytes → Processed σ → Prop where
  | waits {p src out} (incomplete : parse src = .error .incomplete) :
      Looped srv io p src out ⟨p, src, out, .done⟩
  | refused {p src out} (malformed : parse src = .error .protocol) :
      Looped srv io p src out ⟨p, src, out, .bad⟩
  | handed {p src out args rest d} (next : Next srv io p src args rest d)
      (submitted : d.job.isSome = true) :
      Looped srv io p src out ⟨after io p args d, rest, out ++ d.out, .done⟩
  | unwritten {p src out args rest d} (next : Next srv io p src args rest d)
      (upgrade : d.state.upgradeTLS = true) :
      Looped srv io p src out ⟨after io p args d, rest, out ++ d.out, .bad⟩
  | upgraded {p src out args rest d} (next : Next srv io p src args rest d)
      (upgrade : d.state.upgradeTLS = true) :
      Looped srv io p src out
        ⟨{ after io p args d with
            state := { d.state.send (out ++ d.out) with
              inbound := rest
              tls := some .server
              upgradeTLS := false } },
          rest, out ++ d.out, .upgraded⟩
  | closes {p src out args rest d} (next : Next srv io p src args rest d)
      (plain : d.state.upgradeTLS = false) (closing : d.state.closeAfterReply = true) :
      Looped srv io p src out ⟨after io p args d, rest, out ++ d.out, .done⟩
  | goesOn {p src out args rest d r} (next : Next srv io p src args rest d)
      (answered : d.job.isSome = false) (plain : d.state.upgradeTLS = false)
      (stays : d.state.closeAfterReply = false)
      (later : Looped srv io (after io p args d) rest (out ++ d.out) r) : Looped srv io p src out r

theorem processCommands_looped (srv : Server σ) (io : Io σ) {fuel : Nat} {p : Pass σ (List Bytes)}
    {src : Bytes} (out : Bytes) (enough : src.length ≤ fuel) :
    Looped srv io p src out (srv.processCommands io fuel ⟨p, src, out, .done⟩) := by
  induction fuel generalizing p src out with
  | zero =>
    have nothing : src = [] := List.eq_nil_of_length_eq_zero (Nat.le_zero.mp enough)
    exact .waits (by rw [nothing]; rfl)
  | succ fuel ih =>
    simp only [processCommands]
    split
    · rename_i incomplete
      exact .waits incomplete
    · rename_i malformed
      exact .refused malformed
    · rename_i args rest read
      have next : Next srv io p src args rest _ := ⟨read, rfl⟩
      split
      · rename_i submitted
        exact .handed next submitted
      rename_i answered
      split
      · rename_i upgrade
        unfold upgradeToTLS
        split
        · exact .unwritten next upgrade
        · exact .upgraded next upgrade
      rename_i plain
      split
      · rename_i closing
        exact .closes next (eq_false_of_ne_true plain) closing
      · rename_i stays
        refine .goesOn next (eq_false_of_ne_true answered) (eq_false_of_ne_true plain)
          (eq_false_of_ne_true stays) (ih _ ?_)
        exact Nat.le_of_lt_succ (Nat.lt_of_lt_of_le (parse_shorter read) enough)

theorem processBuffer_looped (srv : Server σ) (io : Io σ) (p : Pass σ (List Bytes)) (src : Bytes) :
    Looped srv io p src [] (srv.processBuffer io p src) :=
  srv.processCommands_looped io [] (Nat.le_refl _)

namespace Next

variable {src rest : Bytes} {args : List Bytes} {d : Dispatched σ} {p' : Pass σ (List Bytes)}

theorem sound (next : Next srv io p src args rest d) :
    d.Sound (srv.Passwordless ((io.moment p.count).others p.core) args)
      (srv.Verifies ((io.moment p.count).others p.core) args) p.state
      ((io.moment p.count).others p.core) :=
  next.dispatches ▸ srv.dispatch_sound _ _ _ _

theorem idle (next : Next srv io p src args rest d) (answered : d.job.isSome = false)
    (idle : p.state.authPending = false) : d.state.authPending = false :=
  (next.sound.pending idle).trans answered

theorem pending (next : Next srv io p src args rest d) (submitted : d.job.isSome = true)
    (idle : p.state.authPending = false) : d.state.authPending = true :=
  (next.sound.pending idle).trans submitted

theorem steps (next : Next srv io p' src args rest d) (steps : Steps srv.dispatch p p')
    (idle : p'.state.authPending = false) (goesOn : p.state.Open → p'.state.Open) :
    Steps srv.dispatch p (after io p' args d) :=
  next.dispatches ▸ steps.command (io.moment p'.count) args idle goesOn

theorem available (next : Next srv io p src args rest d) :
    d.state.available = p.state.available := by
  rw [ConnState.available, next.sound.tls, ConnState.available]

end Next

namespace Looped

variable {src out : Bytes} {p' : Pass σ (List Bytes)}

theorem steps (looped : Looped srv io p' src out q) (steps : Steps srv.dispatch p p')
    (idle : p'.state.authPending = false) (goesOn : p.state.Open → p'.state.Open) :
    Steps srv.dispatch p q.pass := by
  induction looped with
  | waits incomplete => exact steps
  | refused malformed => exact steps
  | handed next submitted => exact next.steps steps idle goesOn
  | unwritten next upgrade => exact next.steps steps idle goesOn
  | upgraded next upgrade =>
    exact (next.steps steps idle goesOn).buffers _ ⟨rfl, rfl, rfl, rfl⟩
  | closes next plain closing => exact next.steps steps idle goesOn
  | goesOn next answered plain stays later ih =>
    exact ih (next.steps steps idle goesOn) (next.idle answered idle) fun _ => ⟨stays, plain⟩

theorem unmarked (looped : Looped srv io p src out q) (unmarked : p.state.Open)
    (fine : q.stop ≠ .bad) :
    q.pass.state.upgradeTLS = false ∧
      (q.stop = .upgraded → q.pass.state.closeAfterReply = false) := by
  induction looped with
  | waits incomplete => exact ⟨unmarked.plain, fun halted => by cases halted⟩
  | refused malformed => exact absurd rfl fine
  | handed next submitted =>
    exact ⟨(next.sound.submits submitted unmarked).plain, fun halted => by cases halted⟩
  | unwritten next upgrade => exact absurd rfl fine
  | upgraded next upgrade => exact ⟨rfl, fun _ => next.sound.upgrades unmarked upgrade⟩
  | closes next plain closing => exact ⟨plain, fun halted => by cases halted⟩
  | goesOn next answered plain stays later ih => exact ih ⟨stays, plain⟩ fine

theorem consumes (looped : Looped srv io p src out q) :
    q.pass = p ∧ q.rest = src ∨ q.rest.length < src.length := by
  induction looped with
  | waits incomplete => exact Or.inl ⟨rfl, rfl⟩
  | refused malformed => exact Or.inl ⟨rfl, rfl⟩
  | handed next submitted => exact Or.inr (parse_shorter next.read)
  | unwritten next upgrade => exact Or.inr (parse_shorter next.read)
  | upgraded next upgrade => exact Or.inr (parse_shorter next.read)
  | closes next plain closing => exact Or.inr (parse_shorter next.read)
  | goesOn next answered plain stays later ih =>
    rcases ih with ⟨-, same⟩ | less
    · rw [same]
      exact Or.inr (parse_shorter next.read)
    · exact Or.inr (less.trans (parse_shorter next.read))

theorem available (looped : Looped srv io p src out q) :
    q.pass.state.available ≤ p.state.available := by
  induction looped with
  | waits incomplete => exact Nat.le_refl _
  | refused malformed => exact Nat.le_refl _
  | handed next submitted => exact Nat.le_of_eq next.available
  | unwritten next upgrade => exact Nat.le_of_eq next.available
  | upgraded next upgrade => exact Nat.zero_le _
  | closes next plain closing => exact Nat.le_of_eq next.available
  | goesOn next answered plain stays later ih => exact ih.trans (Nat.le_of_eq next.available)

end Looped

theorem flush_steps (src : Bytes) (steps : Steps srv.dispatch p q.pass) :
    Steps srv.dispatch p (flush io src q).1 := by
  unfold flush
  simp only
  split
  · exact steps
  split
  · exact steps
  · exact steps.buffers _ (q.pass.state.flushed_rebuffered _ _)

theorem flush_stays {src : Bytes} (consumed : q.rest.length < src.length)
    (stays : (flush io src q).2 = .none) :
    (flush io src q).1.state.closeAfterReply = false := by
  have progress : ¬src.length - q.rest.length = 0 := by omega
  unfold flush at stays ⊢
  simp only [if_neg progress] at stays ⊢
  split at stays
  · cases stays
  · rename_i written
    rw [if_neg written, (q.pass.state.flushed_rebuffered _ _).closeAfterReply]
    split at stays
    · cases stays
    · rename_i goesOn
      exact eq_false_of_ne_true goesOn

theorem flush_upgradeTLS (io : Io σ) (src : Bytes) (q : Processed σ) :
    (flush io src q).1.state.upgradeTLS = q.pass.state.upgradeTLS := by
  unfold flush ConnState.discard
  simp only
  split
  · rfl
  split
  · rfl
  · split <;> rfl

theorem flush_open (srv : Server σ) (io : Io σ) {p : Pass σ (List Bytes)} (src : Bytes)
    (unmarked : p.state.Open) (fine : (srv.processBuffer io p src).stop ≠ .bad)
    (stays : (flush io src (srv.processBuffer io p src)).2 = .none) :
    (flush io src (srv.processBuffer io p src)).1.state.Open := by
  have looped := srv.processBuffer_looped io p src
  have plain := (looped.unmarked unmarked fine).1
  refine ⟨?_, (flush_upgradeTLS io src _).trans plain⟩
  rcases looped.consumes with ⟨same, all⟩ | consumed
  · have nothing : (flush io src (srv.processBuffer io p src)).1 = p := by
      unfold flush
      simp only [all, Nat.sub_self, if_pos, same]
    rw [nothing]
    exact unmarked.stays
  · exact flush_stays consumed stays

theorem handleDecryptedResp_leads (io : Io σ) {p' : Pass σ (List Bytes)} (t : Tls)
    (leads : Leads srv.dispatch p (p', .none)) :
    Leads srv.dispatch p (srv.handleDecryptedResp io p' t) := by
  unfold handleDecryptedResp
  split
  · exact leads
  rename_i idle
  have processed : Steps srv.dispatch p (srv.processBuffer io p' t.readBuf).pass :=
    (srv.processBuffer_looped io p' t.readBuf).steps leads.steps (eq_false_of_ne_true idle)
      (leads.stays rfl)
  simp only
  split
  · exact ⟨processed, nofun⟩
  · rename_i fine
    refine ⟨flush_steps _ processed, fun stays ready => ?_⟩
    exact flush_open srv io _ (leads.stays rfl ready) fine stays

theorem onTrafficTLS_leads (io : Io σ) (fuel : Nat) {p' : Pass σ (List Bytes)}
    (leads : Leads srv.dispatch p (p', .none)) :
    Leads srv.dispatch p (srv.onTrafficTLS io fuel p') := by
  induction fuel generalizing p' with
  | zero => exact ⟨leads.steps, nofun⟩
  | succ fuel ih =>
    simp only [onTrafficTLS]
    split
    · exact ⟨leads.steps, nofun⟩
    · rename_i t room
      apply leads.turn
      · intro q t' before
        exact handleDecryptedResp_leads io t' before
      · intro q before
        exact ih before

theorem onTrafficPlaintext_leads (srv : Server σ) (io : Io σ) (p : Pass σ (List Bytes)) :
    Leads srv.dispatch p (srv.onTrafficPlaintext io p) := by
  unfold onTrafficPlaintext
  simp only
  split
  · exact .refl p
  rename_i idle
  split
  · exact ⟨.refl, nofun⟩
  have processed : Steps srv.dispatch p (srv.processBuffer io p p.state.inbound).pass :=
    (srv.processBuffer_looped io p p.state.inbound).steps .refl (eq_false_of_ne_true idle) id
  split
  · exact ⟨processed, nofun⟩
  · rename_i upgraded
    refine ⟨processed, fun _ ready => ?_⟩
    have fine : (srv.processBuffer io p p.state.inbound).stop ≠ .bad := by
      rw [upgraded]
      nofun
    obtain ⟨plain, stays⟩ := (srv.processBuffer_looped io p p.state.inbound).unmarked ready fine
    exact ⟨stays upgraded, plain⟩
  · rename_i done
    have fine : (srv.processBuffer io p p.state.inbound).stop ≠ .bad := by
      rw [done]
      nofun
    exact ⟨flush_steps _ processed, fun stays ready => flush_open srv io _ ready fine stays⟩

theorem onTraffic_leads (srv : Server σ) (io : Io σ) (core : Core σ) (st : ConnState) :
    ∃ r, Leads srv.dispatch (.start core st) r ∧ srv.onTraffic io core st = r.1.ends r.2 := by
  cases encrypted : st.tls with
  | none =>
    simp only [onTraffic, encrypted]
    exact ⟨_, srv.onTrafficPlaintext_leads io (.start core st), rfl⟩
  | some t =>
    simp only [onTraffic, encrypted]
    split
    · exact ⟨(.start core st, .close), ⟨.refl, nofun⟩, rfl⟩
    · exact ⟨_, onTrafficTLS_leads io (t.available + 1) (.refl (.start core st)), rfl⟩

theorem flush_returns (io : Io σ) (src : Bytes) (q : Processed σ) : (flush io src q).2 ≠ .halt := by
  unfold flush
  simp only
  split
  · nofun
  split
  · nofun
  · split <;> nofun

theorem handleDecryptedResp_available (srv : Server σ) (io : Io σ) (p : Pass σ (List Bytes))
    (t : Tls) :
    (srv.handleDecryptedResp io p t).1.state.available ≤ p.state.available ∧
      (srv.handleDecryptedResp io p t).2 ≠ .halt := by
  have processed := (srv.processBuffer_looped io p t.readBuf).available
  unfold handleDecryptedResp
  split
  · exact ⟨Nat.le_refl _, nofun⟩
  simp only
  split
  · exact ⟨processed, nofun⟩
  refine ⟨?_, flush_returns io _ _⟩
  unfold flush
  simp only
  split
  · exact processed
  split
  · exact processed
  · rw [ConnState.discard_available]
    exact processed

theorem grow_room {t t' : Tls} (grown : grow t = some t') :
    t'.readBuf.length < t'.bufCap ∧ t'.available = t.available := by
  have fits := t.fits
  have positive := t.positive
  unfold grow at grown
  split at grown
  · cases grown
    exact ⟨by omega, rfl⟩
  split at grown
  · cases grown
  · cases grown
    refine ⟨?_, rfl⟩
    simp only
    omega

theorem onTrafficTLS_returns (srv : Server σ) (io : Io σ) {fuel : Nat} {p : Pass σ (List Bytes)}
    (enough : p.state.available < fuel) : (srv.onTrafficTLS io fuel p).2 ≠ .halt := by
  induction fuel generalizing p with
  | zero => exact absurd enough (Nat.not_lt_zero _)
  | succ fuel ih =>
    simp only [onTrafficTLS]
    split
    · nofun
    rename_i t grown
    obtain ⟨t₀, encrypted, grown⟩ := Option.bind_eq_some_iff.mp grown
    obtain ⟨room, same⟩ := grow_room grown
    have before : t.available ≤ fuel := by
      simp only [ConnState.available, encrypted, Option.map_some, Option.getD_some] at enough
      omega
    obtain ⟨less, returns⟩ := srv.handleDecryptedResp_available io (p.withTls t.fill.1) t.fill.1
    have now : (p.withTls t.fill.1).state.available = t.fill.1.available := rfl
    rw [now] at less
    intro halts
    rcases Pass.turn_halts halts with served | ⟨fine, on⟩
    · exact returns (served ▸ halts)
    obtain ⟨progress, gotSome⟩ := Tls.fill_available room fine
    rcases on with ⟨-, on⟩ | ⟨nothing, -⟩
    · have further : (srv.handleDecryptedResp io (p.withTls t.fill.1) t.fill.1).1.state.available <
          fuel := by omega
      exact ih further (on ▸ halts)
    · exact Bool.false_ne_true (nothing.symm.trans gotSome)

/-- Over TLS too: each turn of the read loop uses up input. -/
theorem onTraffic_returns (srv : Server σ) (io : Io σ) (core : Core σ) (st : ConnState) :
    (srv.onTraffic io core st).action ≠ .halt := by
  unfold onTraffic
  simp only [Pass.ends]
  split
  · unfold onTrafficPlaintext
    simp only
    split
    · intro halts
      cases halts
    split
    · intro halts
      cases halts
    split
    · intro halts
      cases halts
    · intro halts
      cases halts
    · exact flush_returns io _ _
  · rename_i t encrypted
    split
    · intro halts
      cases halts
    · apply onTrafficTLS_returns
      simp [ConnState.available, Pass.start, encrypted]

def OpensUp (srv : Server σ) (core : Core σ) : Prop :=
  ∃ p, (srv.access.policy? core).bind Rbac.Store.active = some p ∧ p.noPassDefault = true

theorem onOpen_opensUp {core : Core σ} (restricted : srv.access ≠ .unrestricted)
    (up : (srv.onOpen io core).authenticated = true) : srv.OpensUp core := by
  have started : (srv.connectionAuth core).1 = true := up
  unfold connectionAuth at started
  split at started
  · rename_i oauth access
    split at started
    · rename_i p loaded
      split at started
      · rename_i nopass
        exact ⟨p, by simp [Access.policy?, access, loaded], nopass⟩
      · cases started
    · cases started
  · cases started
  · rename_i access
    exact absurd access restricted

theorem guarded {srv : Server σ} {opensUp : Core σ → Prop}
    (opened : ∀ io core, (srv.onOpen io core).authenticated = true → opensUp core) :
    Guarded srv.frontEnd opensUp srv.Passwordless srv.Verifies srv.dispatch where
  fresh _ _ := ⟨rfl, rfl, rfl, rfl⟩
  opened := opened
  traffic := srv.onTraffic_leads
  sound := srv.dispatch_sound

end

end Server

end Tellstone.Resp
