import Tellstone.Resp.Gate

/-! What the dispatch of a command does to what later commands depend on. -/
namespace Tellstone.Resp
open ByteStream EventLoop Frontend

def isAuth (args : List Bytes) : Bool := equalFold (args.headD []) (ascii "AUTH")

def isQuit (args : List Bytes) : Bool := equalFold (args.headD []) (ascii "QUIT")

def isSTARTTLS (args : List Bytes) : Bool :=
  decide (args.length = 1) && equalFold (args.headD []) (ascii "STARTTLS")

theorem not_isQuit_of_isAuth {args : List Bytes} (auth : isAuth args = true) :
    isQuit args = false := by
  cases quit : isQuit args with
  | false => rfl
  | true => exact absurd (eq_of_equalFold auth quit) (by decide)

/-- What a command does to what a later one depends on. -/
structure Effect (upgrades auth rejected quits : Bool) (st : ConnState) {σ : Type}
    (d : Dispatched σ) : Prop where
  inbound : d.state.inbound = st.inbound
  plain : d.state.upgradeTLS = true → st.upgradeTLS = true ∨ upgrades = true
  pending : d.state.authPending = (st.authPending || d.job.isSome)
  fails : d.state.authFails = st.authFails + rejected.toNat
  closing : d.state.closeAfterReply =
    (st.closeAfterReply || quits || rejected && decide (maxAuthFails ≤ st.authFails + 1))
  submitted : d.job.isSome = true → auth = true ∧ rejected = false

namespace Effect

variable {σ : Type} {st : ConnState} {core : Core σ} {upgrades : Bool}

theorem unchanged (auth : Bool) (core : Core σ) (out : Bytes) (kind : Kind) :
    Effect upgrades auth false false st ⟨core, st, out, kind, none⟩ :=
  ⟨rfl, Or.inl, by simp, rfl, by simp, by simp⟩

theorem rejected (access : Access) (m : Moment σ) (username reason out : Bytes) :
    Effect upgrades true true false st (Dispatched.rejected access m st core username reason out) :=
  ⟨rfl, Or.inl, by simp [Dispatched.rejected, authFailed], rfl,
    by simp [Dispatched.rejected, authFailed], by simp [Dispatched.rejected]⟩

theorem submit (m : Moment σ) (job : AuthJob) (out : Bytes) :
    Effect upgrades true false false st (Dispatched.submit m st core job out) := by
  unfold Dispatched.submit
  split
  · exact unchanged true core out .auth
  · exact ⟨rfl, Or.inl, by simp, rfl, by simp, fun _ => ⟨rfl, rfl⟩⟩

theorem stays_plain {auth rejected quits : Bool} {d : Dispatched σ}
    (effect : Effect false auth rejected quits st d) (plain : st.upgradeTLS = false) :
    d.state.upgradeTLS = false := by
  by_contra upgrade
  rcases effect.plain (eq_true_of_ne_false upgrade) with marked | on
  · exact absurd (plain.symm.trans marked) Bool.false_ne_true
  · cases on

end Effect

namespace Server

variable {σ : Type} (srv : Server σ) (m : Moment σ) (st : ConnState) (core : Core σ)
  (args : List Bytes) {upgrades : Bool}

def bearsToken : Bool :=
  decide (srv.access = .policy true ∧ args.length = 2 ∧ isJWT (args.getD 1 []) = true)

def rejects : Bool :=
  decide (args.length = 2 ∨ args.length = 3) && decide (srv.access ≠ .unrestricted) &&
    !srv.bearsToken args && (srv.authHash core args).isNone

theorem authRBAC_effect {oauth : Bool} (access : srv.access = .policy oauth) :
    Effect upgrades true (srv.authHash core args).isNone false st (srv.authRBAC m st core args) := by
  cases loaded : core.policy.active with
  | none =>
    simp only [authRBAC, authHash, access, loaded]
    exact .rejected ..
  | some p =>
    cases known : p.userFor (authUser args) with
    | none =>
      simp only [authRBAC, authHash, access, loaded, known, Option.bind_some]
      exact .rejected ..
    | some u =>
      simp only [authRBAC, authHash, access, loaded, known, Option.bind_some]
      split
      · exact ⟨rfl, Or.inl, by simp, rfl, by simp, by simp⟩
      · exact .submit ..

theorem auth_effect :
    Effect upgrades true (srv.rejects core args) false st (srv.auth m st core args) := by
  unfold auth
  split
  · rename_i wrong
    have none : srv.rejects core args = false := by
      simp [rejects, wrong.1, wrong.2]
    rw [none]
    exact .unchanged ..
  rename_i right
  have count : args.length = 2 ∨ args.length = 3 := by omega
  cases access : srv.access with
  | unrestricted =>
    have none : srv.rejects core args = false := by simp [rejects, access]
    rw [none]
    exact .unchanged ..
  | password hash =>
    simp only
    split
    · rename_i other
      have here : srv.rejects core args = true := by
        simp [rejects, bearsToken, authHash, access, other, count]
      rw [here]
      exact .rejected ..
    · rename_i own
      have none : srv.rejects core args = false := by
        simp [rejects, authHash, access, not_not.mp own]
      rw [none]
      exact .submit ..
  | policy oauth =>
    simp only
    split
    · rename_i token
      have none : srv.rejects core args = false := by
        have bears : srv.bearsToken args = true := by
          rw [bearsToken, access, token.1]
          exact decide_eq_true ⟨rfl, token.2⟩
        simp [rejects, bears]
      rw [none]
      exact .submit ..
    · rename_i other
      have same : srv.rejects core args = (srv.authHash core args).isNone := by
        have plain : srv.bearsToken args = false := by
          refine decide_eq_false fun token => other ⟨?_, token.2⟩
          exact Access.policy.inj (access.symm.trans token.1)
        simp [rejects, plain, access, count]
      rw [same]
      exact srv.authRBAC_effect m st core args access

theorem family_effect (f : Family) :
    Effect upgrades false false false st (srv.family m st core args f) := by
  unfold family
  split
  · exact .unchanged ..
  · split
    · exact .unchanged ..
    · exact .unchanged ..

def marks : Bool := srv.startTLS && (st.tls.isNone && isSTARTTLS args)

theorem dispatchSTARTTLS_effect (on : srv.startTLS = true)
    (named : equalFold (args.headD []) (ascii "STARTTLS") = true) :
    Effect (srv.marks st args) false false false st (srv.dispatchSTARTTLS st core args) := by
  unfold dispatchSTARTTLS
  split
  · exact .unchanged ..
  rename_i single
  split
  · exact .unchanged ..
  rename_i plain
  split
  · exact .unchanged ..
  · refine ⟨rfl, fun _ => Or.inr ?_, by simp, rfl, by simp, by simp⟩
    have plaintext : st.tls = none := by simpa using plain
    rw [marks, isSTARTTLS, on, named, plaintext, not_not.mp single]
    rfl

theorem execute_effect (cmd : Bytes) (rest : List Bytes) :
    Effect (srv.marks st (cmd :: rest)) false false (isQuit (cmd :: rest)) st
      (srv.execute m st core (cmd :: rest)) := by
  have known (quit : isQuit (cmd :: rest) = true) := @lookup_of_ungated cmd (Or.inr quit)
  unfold execute
  simp only
  split
  · rename_i reply replied
    have stays : isQuit (cmd :: rest) = false := by
      by_contra quit
      simp only [Command.execute, List.map_cons, List.head?_cons, Option.bind_some,
        (known (eq_true_of_ne_false quit)).1] at replied
      cases replied
    rw [stays]
    exact .unchanged ..
  rw [List.headD_cons]
  split
  · rename_i ping
    have stays : isQuit (cmd :: rest) = false := by
      by_contra quit
      exact absurd (eq_of_equalFold ping (eq_true_of_ne_false quit)) (by decide)
    rw [stays]
    exact .unchanged ..
  rename_i notPing
  split
  · rename_i f isFamily
    have stays : isQuit (cmd :: rest) = false := by
      by_contra quit
      rcases (known (eq_true_of_ne_false quit)).2 with none | ping
      · cases none.symm.trans isFamily
      · exact notPing ping
    rw [stays]
    exact srv.family_effect m st core _ f
  split
  · rename_i quit
    have quits : isQuit (cmd :: rest) = true := quit
    rw [quits]
    exact ⟨rfl, Or.inl, by simp, rfl, by simp, by simp⟩
  rename_i other
  have stays : isQuit (cmd :: rest) = false := eq_false_of_ne_true other
  rw [stays]
  split
  · rename_i upgrade
    exact srv.dispatchSTARTTLS_effect st core _ upgrade.1 upgrade.2
  · exact .unchanged ..

theorem dispatch_effect :
    Effect (srv.marks st args) (isAuth args) (isAuth args && srv.rejects core args)
      (isQuit args) st (srv.dispatch m st core args) := by
  unfold dispatch
  split
  · exact .unchanged ..
  · rename_i cmd rest
    split
    · rename_i auth
      have named : isAuth (cmd :: rest) = true := auth
      rw [named, Bool.true_and, not_isQuit_of_isAuth named]
      exact srv.auth_effect m st core _
    rename_i other
    have unnamed : isAuth (cmd :: rest) = false := eq_false_of_ne_true other
    rw [unnamed, Bool.false_and]
    split
    · exact srv.execute_effect m st core cmd rest
    split
    · rename_i upgrade
      have stays : isQuit (cmd :: rest) = false := by
        by_contra quit
        exact absurd (eq_of_equalFold upgrade.2 (eq_true_of_ne_false quit)) (by decide)
      rw [stays]
      exact srv.dispatchSTARTTLS_effect st core _ upgrade.1 upgrade.2
    split
    · exact srv.execute_effect m st core cmd rest
    · rename_i ungated
      have stays : isQuit (cmd :: rest) = false := eq_false_of_ne_true (not_or.mp ungated).2
      rw [stays]
      exact .unchanged ..

end Server

end Tellstone.Resp
