import Tellstone.Resp.Effect
import Tellstone.Resp.Replies

/-! What a dispatched command is answered with: one value, unless ROLE LIST finds roles. -/
namespace Tellstone.Resp
open ByteStream EventLoop Frontend Resp2

def OneLine : Command.Reply → Prop
  | .denied cmd => Plain cmd
  | .errorMsg text => Plain text
  | _ => True

theorem respReply_adds {pl : Platform} (documented : pl.Documented) {reply : Command.Reply}
    (fine : OneLine reply) (dst : Bytes) : Adds 1 dst (respReply pl.errorText dst reply) := by
  cases reply with
  | ok => exact adds_ok (.refl dst)
  | bulk b => exact adds_bulk (.refl dst) b
  | null => exact adds_null (.refl dst)
  | int n => exact adds_int (.refl dst) n
  | denied cmd =>
    apply adds_error (.refl dst)
    simp only [plain_append]
    exact ⟨⟨plain_ascii (by decide), fine⟩, plain_ascii (by decide)⟩
  | errorMsg text => exact adds_error (.refl dst) fine
  | storageErr err =>
    apply adds_error (.refl dst)
    exact plain_append.mpr ⟨plain_ascii (by decide), Platform.errorText_plain documented err⟩

section
variable {σ : Type} {S : Command.Store σ} {c : Command.Ctx} {st : σ}

theorem lowerName_plain (cmd : Command.DataCommand) : Plain cmd.lowerName := by
  cases cmd <;> exact plain_ascii (by decide)

theorem wrongArguments_plain (cmd : Command.DataCommand) : Plain (Command.wrongArguments cmd) :=
  plain_wrongNumber (lowerName_plain cmd)

theorem handler_oneLine (cmd : Command.DataCommand) : OneLine (Command.handler S cmd c st).2 := by
  cases cmd with
  | get =>
    simp only [Command.handler, Command.get]
    split
    · split <;> trivial
    · exact wrongArguments_plain .get
  | set =>
    simp only [Command.handler, Command.set]
    split
    · exact wrongArguments_plain .set
    split
    · exact (plain_ascii (by decide) : Plain Command.syntaxError)
    split <;> trivial
  | del =>
    simp only [Command.handler, Command.del]
    split
    · exact wrongArguments_plain .del
    · trivial

theorem execute_oneLine {now : Nat} {reply : Command.Reply}
    (replied : (Command.execute S now c st).reply = some reply) : OneLine reply := by
  unfold Command.execute at replied
  split at replied
  · cases replied
  rename_i cmd _
  split at replied
  · cases replied
    exact wrongArguments_plain cmd
  split at replied
  · cases replied
    exact handler_oneLine cmd
  split at replied
  · cases replied
    exact lowerName_plain cmd
  · cases replied
    exact handler_oneLine cmd

end

theorem answers_out {σ : Type} {p : Prop} [Decidable p] {echo echo' : Option Bytes} {a : Bytes}
    {d d' : Dispatched σ} (yes : p → Answers echo a d.out) (no : Answers echo' a d'.out) :
    Answers (if p then echo else echo') a (if p then d else d').out := by
  rw [apply_ite Dispatched.out]
  exact answers_ite yes no

namespace Server

variable {σ : Type} (srv : Server σ) (m : Moment σ) (st : ConnState) (core : Core σ)
  (args : List Bytes)

def familyEcho (f : Family) : Option Bytes :=
  match srv.access.policy? core with
  | none => if f = .command then commandEcho args else none
  | some policy =>
    if st.session.any fun s => s.allowsCommand f.rbacID then
      match f with
      | .command => commandEcho args
      | .role => roleEcho args policy
      | .acl => aclEcho args
    else none

/-- What a command repeats: its name if that is unknown, or what its family repeats. -/
def executeEcho (cmd : Bytes) : Option Bytes :=
  if (Command.lookup (some cmd)).isSome then none
  else if equalFold cmd (ascii "PING") then none
  else
    match Family.find cmd with
    | some f => srv.familyEcho st core args f
    | none =>
      if equalFold cmd (ascii "QUIT") then none
      else if srv.startTLS ∧ equalFold cmd (ascii "STARTTLS") then none
      else some cmd

/-- The bytes of the client that the error reply to a command repeats as they came. -/
def echo : Option Bytes :=
  match args with
  | [] => none
  | cmd :: _ =>
    if equalFold cmd (ascii "AUTH") ∨ st.authenticated = false then none
    else srv.executeEcho st core args cmd

def ListsRoles : Prop :=
  st.authenticated = true ∧ (∃ oauth, srv.access = .policy oauth) ∧
    (st.session.any fun s => s.allowsCommand .role) = true ∧
    equalFold (args.headD []) (ascii "ROLE") = true ∧ Resp.ListsRoles args core.policy

theorem countCommand_active (s : Rbac.Store) (session : Option Rbac.SessionContext) :
    ((session.map s.countCommand).getD s).active = s.active := by
  cases session with
  | none => rfl
  | some session =>
    simp only [Option.map_some, Option.getD_some, Rbac.Store.countCommand]
    split <;> rfl

variable {pl : Platform} (documented : pl.Documented)

theorem family_lists (pl : Platform) {oauth : Bool} (access : srv.access = .policy oauth)
    (allowed : (st.session.any fun s => s.allowsCommand .role) = true)
    (lists : Resp.ListsRoles args core.policy) :
    ∃ s : Rbac.Store, s.active = core.policy.active ∧
      ((srv.administered pl).family m st core args .role).out = roleList args [] s ∧
      ((srv.administered pl).family m st core args .role).job = none := by
  obtain ⟨two, isList, -⟩ := lists
  refine ⟨(st.session.map core.policy.countCommand).getD core.policy,
    countCommand_active core.policy st.session, ?_, ?_⟩
  · simp only [family, administered, access, Access.policy?, Family.rbacID, allowed, handlers,
      overPolicy, role_list two isList, ↓reduceIte]
  · simp only [family, administered, access, Access.policy?, Family.rbacID, allowed, ↓reduceIte]

include documented in
theorem family_answers (f : Family)
    (unlisted : ¬ (f = .role ∧ (∃ oauth, srv.access = .policy oauth) ∧
      (st.session.any fun s => s.allowsCommand .role) = true ∧ Resp.ListsRoles args core.policy)) :
    Answers (srv.familyEcho st core args f) []
      ((srv.administered pl).family m st core args f).out := by
  have refusal : Plain (ascii "ERR RBAC is not enabled") := plain_ascii (by decide)
  have lower : Plain f.lowerName := by cases f <;> exact plain_ascii (by decide)
  unfold familyEcho family
  cases access : srv.access with
  | unrestricted =>
    simp only [administered, access, Access.policy?]
    cases f with
    | command => exact command_answers args []
    | role => exact answers_error [] refusal
    | acl => exact answers_error [] refusal
  | password hash =>
    simp only [administered, access, Access.policy?]
    cases f with
    | command => exact command_answers args []
    | role => exact answers_error [] refusal
    | acl => exact answers_error [] refusal
  | policy oauth =>
    simp only [administered, access, Access.policy?]
    split
    · rename_i allowed
      cases f with
      | command => exact command_answers args []
      | role =>
        have same := countCommand_active core.policy st.session
        have quiet : ¬ Resp.ListsRoles args ((st.session.map core.policy.countCommand).getD
            core.policy) := by
          rintro ⟨two, isList, found⟩
          exact unlisted ⟨rfl, ⟨oauth, access⟩, allowed, two, isList, same ▸ found⟩
        rw [← roleEcho_congr same]
        exact role_answers documented quiet m.salt []
      | acl => exact acl_answers documented args m.salt [] _
    · apply answers_error
      simp only [plain_append]
      exact ⟨⟨plain_ascii (by decide), lower⟩, plain_ascii (by decide)⟩

theorem find_eq_role {cmd : Bytes} (isRole : equalFold cmd (ascii "ROLE") = true) :
    Family.find cmd = some .role := by
  have other : ¬ equalFold cmd (Family.rbacID .command).name = true := fun same =>
    absurd (eq_of_equalFold same isRole) (by decide)
  simp only [Family.find, Family.all, List.find?_cons, other]
  simp only [Family.rbacID, Rbac.Cmd.name, isRole]

theorem equalFold_of_find {cmd : Bytes} {f : Family} (found : Family.find cmd = some f) :
    equalFold cmd f.rbacID.name = true := by
  exact List.find?_some (p := fun f : Family => equalFold cmd f.rbacID.name) found

theorem execute_silent (S : Command.Store σ) (now : Nat) {cmd : Bytes}
    (unknown : Command.lookup (some cmd) = none) (c : Command.Ctx) {rest : List Command.Arg}
    (named : c.args = some cmd :: rest) (store : σ) :
    (Command.execute S now c store).reply = none := by
  simp only [Command.execute, named, List.head?_cons, Option.bind_some, unknown]

include documented in
theorem execute_data {cmd : Bytes} {data : Command.DataCommand}
    (known : Command.lookup (some cmd) = some data) (rest : List Bytes) :
    Adds 1 [] ((srv.administered pl).execute m st core (cmd :: rest)).out := by
  have found : ((cmd :: rest).map some).head?.bind Command.lookup = some data := known
  obtain ⟨reply, replied⟩ := @Command.execute_replies σ (srv.store m.now) m.now
    ⟨(cmd :: rest).map some, 0, srv.access.policy? core, st.session, st.remoteAddr⟩ core.store data
    found
  simp only [execute, administered, replied]
  exact respReply_adds documented (execute_oneLine replied) []

theorem dispatchSTARTTLS_adds : Adds 1 [] (srv.dispatchSTARTTLS st core args).out := by
  unfold dispatchSTARTTLS
  split
  · exact adds_error (.refl []) (plain_ascii (by decide))
  split
  · exact adds_error (.refl []) (plain_ascii (by decide))
  split
  · exact adds_error (.refl []) (plain_ascii (by decide))
  · exact adds_ok (.refl [])

include documented in
theorem execute_answers (cmd : Bytes) (rest : List Bytes)
    (unlisted : ¬ (equalFold cmd (ascii "ROLE") = true ∧ (∃ oauth, srv.access = .policy oauth) ∧
      (st.session.any fun s => s.allowsCommand .role) = true ∧
      Resp.ListsRoles (cmd :: rest) core.policy)) :
    Answers (srv.executeEcho st core (cmd :: rest) cmd) []
      ((srv.administered pl).execute m st core (cmd :: rest)).out := by
  unfold executeEcho
  by_cases known : (Command.lookup (some cmd)).isSome = true
  · obtain ⟨data, found⟩ := Option.isSome_iff_exists.mp known
    rw [if_pos known]
    exact srv.execute_data m st core documented found rest
  rw [if_neg known]
  have silent := execute_silent ((srv.administered pl).store m.now) m.now
    (Option.not_isSome_iff_eq_none.mp known)
    ⟨(cmd :: rest).map some, 0, (srv.administered pl).access.policy? core, st.session,
      st.remoteAddr⟩ rfl core.store
  simp only [execute, silent, List.headD_cons]
  apply answers_out
  · intro _
    cases rest with
    | nil => exact adds_simple (.refl []) (plain_ascii (by decide) : Plain (ascii "PONG"))
    | cons text more => exact adds_bulk (.refl []) text
  rcases found : Family.find cmd with _ | f
  · apply answers_out
    · intro _
      exact adds_ok (.refl [])
    apply answers_out
    · intro _
      exact dispatchSTARTTLS_adds _ st core _
    exact answers_echo [] cmd (plain_ascii (by decide)) (plain_ascii (by decide))
  · apply srv.family_answers m st core (cmd :: rest) documented f
    rintro ⟨rfl, access, allowed, lists⟩
    exact unlisted ⟨equalFold_of_find found, access, allowed, lists⟩

theorem executeEcho_of_ungated {cmd : Bytes}
    (ungated : equalFold cmd (ascii "PING") = true ∨ equalFold cmd (ascii "QUIT") = true)
    (rest : List Bytes) : srv.executeEcho st core (cmd :: rest) cmd = none := by
  obtain ⟨unknown, noFamily⟩ := lookup_of_ungated ungated
  simp only [executeEcho, unknown, Option.isSome_none, Bool.false_eq_true, ↓reduceIte]
  split
  · rfl
  rename_i notPing
  rw [noFamily.resolve_right notPing]
  exact if_pos (ungated.resolve_left notPing)

def Settled (d : Dispatched σ) : Prop :=
  d.job = none ∧ Adds 1 [] d.out ∨ d.job.isSome = true ∧ d.out = []

theorem auth_settled : Settled (srv.auth m st core args) := by
  have invalid : Adds 1 [] invalidPassword := adds_error (.refl []) (plain_ascii (by decide))
  have rejected (username reason : Bytes) :
      Settled (Dispatched.rejected srv.access m st core username reason invalidPassword) :=
    Or.inl ⟨rfl, invalid⟩
  have submitted (job : AuthJob) : Settled (Dispatched.submit m st core job invalidPassword) := by
    unfold Dispatched.submit
    split
    · exact Or.inl ⟨rfl, invalid⟩
    · exact Or.inr ⟨rfl, rfl⟩
  unfold auth
  split
  · exact Or.inl ⟨rfl, adds_error (.refl []) (plain_ascii (by decide))⟩
  split
  · split
    · exact submitted _
    simp only [authRBAC]
    split
    · exact rejected _ _
    split
    · exact rejected _ _
    split
    · exact Or.inl ⟨rfl, adds_ok (.refl [])⟩
    · exact submitted _
  · exact Or.inl ⟨rfl, adds_ok (.refl [])⟩
  · simp only
    split
    · exact rejected _ _
    · exact submitted _

include documented in
theorem dispatch_answers (inline : ((srv.administered pl).dispatch m st core args).job = none)
    (unlisted : ¬ srv.ListsRoles st core args) :
    Answers (srv.echo st core args) [] ((srv.administered pl).dispatch m st core args).out := by
  unfold echo
  cases args with
  | nil => exact answers_error [] (plain_ascii (by decide))
  | cons cmd rest =>
    simp only [dispatch] at inline ⊢
    by_cases auth : equalFold cmd (ascii "AUTH") = true
    · rw [if_pos (Or.inl auth)]
      rw [if_pos auth] at inline ⊢
      rcases auth_settled (srv.administered pl) m st core (cmd :: rest) with ⟨-, one⟩ | ⟨some, -⟩
      · exact one
      · rw [inline] at some
        cases some
    rw [if_neg auth]
    by_cases passed : st.authenticated = true
    · rw [if_pos passed, if_neg (by simp [auth, passed])]
      apply srv.execute_answers m st core documented cmd rest
      rintro ⟨isRole, access, allowed, lists⟩
      exact unlisted ⟨passed, access, allowed, isRole, lists⟩
    rw [if_neg passed, if_pos (Or.inr (eq_false_of_ne_true passed))]
    split
    · exact dispatchSTARTTLS_adds _ st core _
    split
    · rename_i ungated
      rw [← srv.executeEcho_of_ungated st core ungated rest]
      apply srv.execute_answers m st core documented cmd rest
      rintro ⟨isRole, -⟩
      rcases ungated with ping | quit
      · exact absurd (eq_of_equalFold ping isRole) (by decide)
      · exact absurd (eq_of_equalFold quit isRole) (by decide)
    · exact answers_error [] (plain_ascii (by decide))

theorem dispatch_submitted {job : AuthJob} (submitted : (srv.dispatch m st core args).job = some job) :
    srv.echo st core args = none ∧ (srv.dispatch m st core args).out = [] := by
  have some : (srv.dispatch m st core args).job.isSome = true := by rw [submitted]; rfl
  have auth := ((srv.dispatch_effect m st core args).submitted some).1
  cases args with
  | nil => exact absurd auth (by decide)
  | cons cmd rest =>
    have named : equalFold cmd (ascii "AUTH") = true := auth
    have handled : srv.dispatch m st core (cmd :: rest) = srv.auth m st core (cmd :: rest) :=
      if_pos named
    rw [handled] at submitted ⊢
    refine ⟨if_pos (Or.inl named), ?_⟩
    rcases srv.auth_settled m st core (cmd :: rest) with ⟨none, -⟩ | ⟨-, silent⟩
    · cases none.symm.trans submitted
    · exact silent

theorem dispatch_lists (lists : srv.ListsRoles st core args) (pl : Platform) :
    ∃ count, count ≠ 0 ∧ ((srv.administered pl).dispatch m st core args).job = none ∧
      Adds (3 * count) (header count) ((srv.administered pl).dispatch m st core args).out := by
  obtain ⟨passed, ⟨oauth, access⟩, allowed, named, lists⟩ := lists
  obtain ⟨s, same, out, inline⟩ := srv.family_lists m st core args pl access allowed lists
  obtain ⟨two, -, p, loaded, present⟩ := lists
  cases args with
  | nil => cases two
  | cons cmd rest =>
    have isRole : equalFold cmd (ascii "ROLE") = true := named
    have four : cmd.length = 4 := length_of_equalFold isRole
    have other (name : String) (differs : ascii name ≠ ascii "ROLE") :
        ¬ equalFold cmd (ascii name) = true :=
      fun same => differs (eq_of_equalFold same isRole)
    have silent := execute_silent ((srv.administered pl).store m.now) m.now
      (lookup_of_length (by omega))
      ⟨(cmd :: rest).map some, 0, (srv.administered pl).access.policy? core, st.session,
        st.remoteAddr⟩ rfl core.store
    have handled : (srv.administered pl).dispatch m st core (cmd :: rest) =
        (srv.administered pl).family m st core (cmd :: rest) .role := by
      simp only [dispatch, if_neg (other "AUTH" (by decide)), if_pos passed, execute, silent,
        List.headD_cons, if_neg (other "PING" (by decide)), find_eq_role isRole]
    refine ⟨p.roles.keys.length, ?_, ?_, ?_⟩
    · exact fun empty => present (List.eq_nil_of_length_eq_zero empty)
    · rw [handled, inline]
    · rw [handled, out]
      exact roleList_adds two (same.trans loaded) []

section
variable {args : List Bytes} (plain : ∀ a ∈ args, Plain a)
include plain

theorem plain_getD (i : Nat) : Plain (args.getD i []) := by
  rw [List.getD_eq_getElem?_getD]
  cases found : args[i]? with
  | none => exact plain_nil
  | some a => exact plain a (List.mem_of_getElem? found)

theorem commandEcho_plain : PlainEcho (commandEcho args) := by
  have list : PlainEcho (listEcho args) := by
    apply plainEcho_ite plainEcho_none
    apply plainEcho_ite ?_ plainEcho_none
    apply plainEcho_ite plainEcho_none
    apply plainEcho_ite plainEcho_none
    apply plainEcho_ite plainEcho_none
    apply plainEcho_ite plainEcho_none
    exact plainEcho_some (plain_getD plain 3)
  apply plainEcho_ite plainEcho_none
  apply plainEcho_ite plainEcho_none
  apply plainEcho_ite plainEcho_none
  apply plainEcho_ite plainEcho_none
  apply plainEcho_ite list
  apply plainEcho_ite plainEcho_none
  exact plainEcho_some (plain_getD plain 1)

theorem roleEcho_plain (s : Rbac.Store) : PlainEcho (roleEcho args s) := by
  have getUser : PlainEcho (getUserEcho args s) := by
    apply plainEcho_ite plainEcho_none
    cases s.active with
    | none => exact plainEcho_none
    | some p => exact plainEcho_ite (plainEcho_some (plain_getD plain 2)) plainEcho_none
  apply plainEcho_ite plainEcho_none
  apply plainEcho_ite plainEcho_none
  apply plainEcho_ite plainEcho_none
  apply plainEcho_ite plainEcho_none
  apply plainEcho_ite plainEcho_none
  apply plainEcho_ite plainEcho_none
  apply plainEcho_ite getUser
  exact plainEcho_some (plain_getD plain 1)

theorem aclEcho_plain : PlainEcho (aclEcho args) := by
  apply plainEcho_ite plainEcho_none
  apply plainEcho_ite plainEcho_none
  apply plainEcho_ite plainEcho_none
  apply plainEcho_ite plainEcho_none
  apply plainEcho_ite plainEcho_none
  exact plainEcho_some (plain_getD plain 1)

theorem familyEcho_plain (f : Family) : PlainEcho (srv.familyEcho st core args f) := by
  unfold familyEcho
  cases srv.access.policy? core with
  | none => exact plainEcho_ite (commandEcho_plain plain) plainEcho_none
  | some policy =>
    apply plainEcho_ite ?_ plainEcho_none
    cases f with
    | command => exact commandEcho_plain plain
    | role => exact roleEcho_plain plain policy
    | acl => exact aclEcho_plain plain

theorem echo_plain : PlainEcho (srv.echo st core args) := by
  cases args with
  | nil => exact plainEcho_none
  | cons cmd rest =>
    apply plainEcho_ite plainEcho_none
    apply plainEcho_ite plainEcho_none
    apply plainEcho_ite plainEcho_none
    cases Family.find cmd with
    | some f => exact srv.familyEcho_plain st core plain f
    | none =>
      apply plainEcho_ite plainEcho_none
      apply plainEcho_ite plainEcho_none
      exact plainEcho_some (plain cmd List.mem_cons_self)

end

/-- A command that is answered in step: it has no line breaks and does not list roles. -/
def InStep (st : ConnState) (e : Entry σ (List Bytes)) : Prop :=
  (∀ a ∈ e.frame, Plain a) ∧ ¬ srv.ListsRoles st e.before e.frame

include documented in
theorem dispatch_adds (plain : ∀ a ∈ args, Plain a)
    (inline : ((srv.administered pl).dispatch m st core args).job = none)
    (unlisted : ¬ srv.ListsRoles st core args) :
    Adds 1 [] ((srv.administered pl).dispatch m st core args).out :=
  (srv.dispatch_answers m st core args documented inline unlisted).adds
    (srv.echo_plain st core plain)

def Outputs (q q' : Processed σ) : Prop :=
  ∃ n new, q'.pass.log = q.pass.log ++ new ∧
    q'.pass.count = q.pass.count + n + (new.filterMap Note.job?).length ∧
    ((∀ st e, .served st e ∈ new → srv.InStep st e) → Adds n q.out q'.out)

theorem Outputs.trans {q q' q'' : Processed σ} (first : srv.Outputs q q')
    (second : srv.Outputs q' q'') : srv.Outputs q q'' := by
  obtain ⟨n, new, log, count, adds⟩ := first
  obtain ⟨n', new', log', count', adds'⟩ := second
  refine ⟨n + n', new ++ new', ?_, ?_, ?_⟩
  · rw [log', log, List.append_assoc]
  · rw [List.filterMap_append, List.length_append]
    omega
  · intro inStep
    have early := adds fun st e mem => inStep st e (List.mem_append_left _ mem)
    exact early.trans (adds' fun st e mem => inStep st e (List.mem_append_right _ mem))

include documented in
theorem Next.outputs {io : Io σ} {p : Pass σ (List Bytes)} {src rest : Bytes} {args : List Bytes}
    {d : Dispatched σ} (next : Next (srv.administered pl) io p src args rest d) (out : Bytes)
    (stop stop' : Stop) :
    srv.Outputs ⟨p, src, out, stop⟩ ⟨after io p args d, rest, out ++ d.out, stop'⟩ := by
  cases inline : d.job with
  | none =>
    refine ⟨1, [.served p.state ⟨args, d.kind, (io.moment p.count).others p.core, d.core⟩],
      ?_, rfl, ?_⟩
    · simp [after, Pass.take, inline]
    · intro inStep
      obtain ⟨plain, unlisted⟩ := inStep _ _ List.mem_cons_self
      rw [← next.dispatches] at inline ⊢
      exact (srv.dispatch_adds _ _ _ _ documented plain inline unlisted).behind _
  | some job =>
    refine ⟨0, [.served p.state ⟨args, d.kind, (io.moment p.count).others p.core, d.core⟩,
      .submitted p.state job], ?_, rfl, ?_⟩
    · simp [after, Pass.take, inline]
    · intro _
      rw [← next.dispatches] at inline ⊢
      have silent := ((srv.administered pl).dispatch_submitted _ _ _ _ inline).2
      rw [silent, List.append_nil]
      exact .refl _

include documented in
theorem Looped.outputs {io : Io σ} {p : Pass σ (List Bytes)} {src out : Bytes} {q : Processed σ}
    (looped : Looped (srv.administered pl) io p src out q) :
    srv.Outputs ⟨p, src, out, .done⟩ q := by
  induction looped with
  | waits incomplete => exact ⟨0, [], by simp, by simp, fun _ => .refl _⟩
  | refused malformed => exact ⟨0, [], by simp, by simp, fun _ => .refl _⟩
  | handed next submitted => exact next.outputs srv documented _ _ _
  | unwritten next upgrade => exact next.outputs srv documented _ _ _
  | upgraded next upgrade => exact next.outputs srv documented _ _ .upgraded
  | closes next plain closing => exact next.outputs srv documented _ _ _
  | goesOn next answered plain stays later ih =>
    exact (next.outputs srv documented _ .done .done).trans srv ih

end Server

def OneReply (out : Bytes) : Prop := ∃ v : Value, v.WellFormed ∧ out = v.encode

theorem oneReply_iff {out : Bytes} : OneReply out ↔ Adds 1 [] out := by
  constructor
  · rintro ⟨v, fine, rfl⟩
    exact (Adds.refl []).value fine
  · rintro ⟨vs, single, fine, rfl⟩
    obtain ⟨v, rfl⟩ := List.length_eq_one_iff.mp single
    refine ⟨v, fine v List.mem_cons_self, ?_⟩
    rw [encodeAll, encodeAll, List.append_nil, List.nil_append]

/-- A command that is not handed to the workers is answered with one value, unless it lists roles;
a loop writes as many values as it answers commands. -/
theorem one_reply_iff {pl : Platform} (documented : pl.Documented) {σ : Type} (srv : Server σ) :
    (∀ m st core args, (∀ a ∈ args, Plain a) →
      ((srv.administered pl).dispatch m st core args).job = none →
      (OneReply ((srv.administered pl).dispatch m st core args).out ↔
        ¬ srv.ListsRoles st core args)) ∧
    ∀ io p src, srv.Outputs ⟨p, src, [], .done⟩ ((srv.administered pl).processBuffer io p src) := by
  refine ⟨fun m st core args plain inline => ?_, fun io p src => ?_⟩
  · rw [oneReply_iff]
    constructor
    · intro one lists
      obtain ⟨count, present, -, adds⟩ := srv.dispatch_lists m st core args lists pl
      have same := adds.array_iff (a := []) |>.mp one
      omega
    · exact srv.dispatch_adds m st core args documented plain inline
  · exact ((srv.administered pl).processBuffer_looped io p src).outputs srv documented

def terse : Platform :=
  ⟨fun _ => [], fun _ => [], fun _ password => .ok password, fun n => Resp2.number n, false⟩

theorem terse_documented : terse.Documented where
  quote _ := plain_nil
  system _ := plain_nil
  bcrypt failed := by cases failed

def bare (access : Access) : Server Unit where
  store _ := ⟨fun s _ => (s, none), fun s _ _ _ => (s, none), fun s _ => (s, false)⟩
  access := access
  tls := false
  startTLS := false
  compare _ _ := false
  text _ := []
  admin _ _ _ policy := (policy, [])

def bareMoment : Moment Unit := ⟨0, id, false, [], false⟩

def opsRole : Rbac.Role := ⟨0, ascii "ops", [128], []⟩

def opsCore : Core Unit :=
  ⟨(), .new (some ⟨AList.singleton (ascii "ops") opsRole, ∅, none, []⟩) 1⟩

def opsConn : ConnState :=
  .opened [] false true (some (.new (ascii "default") (some opsRole)))

theorem one_reply_iff_ping :
    OneReply (((bare .unrestricted).administered terse).dispatch bareMoment opsConn opsCore
      [ascii "PING"]).out := by
  refine ((one_reply_iff terse_documented (bare .unrestricted)).1 bareMoment opsConn opsCore
    [ascii "PING"] (by decide) (by decide)).mpr ?_
  rintro ⟨-, -, -, named, -⟩
  exact absurd named (by decide)

theorem one_reply_role_list :
    (((bare (.policy false)).administered terse).dispatch bareMoment opsConn opsCore
      [ascii "ROLE", ascii "LIST"]).out =
        ascii "*1\r\n$3\r\nops\r\n*1\r\n$4\r\nROLE\r\n*0\r\n" ∧
    ¬ OneReply (((bare (.policy false)).administered terse).dispatch bareMoment opsConn opsCore
      [ascii "ROLE", ascii "LIST"]).out := by
  refine ⟨by decide, ?_⟩
  rw [oneReply_iff]
  intro one
  have lists : (bare (.policy false)).ListsRoles opsConn opsCore [ascii "ROLE", ascii "LIST"] :=
    ⟨rfl, ⟨false, rfl⟩, by decide, by decide, rfl, by decide, _, rfl, by decide⟩
  obtain ⟨count, present, -, adds⟩ := Server.dispatch_lists _ bareMoment opsConn opsCore _ lists terse
  have same := adds.array_iff (a := []) |>.mp one
  omega

def ErrorLine (out : Bytes) : Prop :=
  out.head? = some 45 → ∃ text, Plain text ∧ out = 45 :: Resp2.line text

theorem errorLine_of_adds {out : Bytes} (one : Adds 1 [] out) : ErrorLine out := by
  obtain ⟨v, fine, rfl⟩ := oneReply_iff.mpr one
  intro error
  cases fine with
  | error plain => exact ⟨_, plain, rfl⟩
  | simple | int | bulk | null | array =>
    rw [Value.encode, List.head?_cons] at error
    exact absurd (Option.some.inj error) (by decide)

theorem errorLine_appendError {text : Bytes} : ErrorLine (appendError [] text) ↔ Plain text := by
  constructor
  · intro single
    obtain ⟨text', plain, same⟩ := single rfl
    have cancelled : text ++ [13, 10] = text' ++ [13, 10] := (List.cons.inj same).2
    rwa [List.append_cancel_right cancelled]
  · exact fun plain => errorLine_of_adds (adds_error (.refl []) plain)

theorem Answers.errorLine_iff {echo : Option Bytes} {out : Bytes} (answers : Answers echo [] out) :
    ErrorLine out ↔ PlainEcho echo := by
  cases echo with
  | none => exact ⟨fun _ => plainEcho_none, fun _ => errorLine_of_adds answers⟩
  | some text =>
    obtain ⟨before, after, front, back, rfl⟩ := answers
    rw [errorLine_appendError, plain_append, plain_append]
    constructor
    · exact fun plain => plainEcho_some plain.1.2
    · exact fun plain => ⟨⟨front, plain text rfl⟩, back⟩

namespace Server

variable {σ : Type} (srv : Server σ)

theorem echo_of_lists {st : ConnState} {core : Core σ} {args : List Bytes}
    (lists : srv.ListsRoles st core args) : srv.echo st core args = none := by
  obtain ⟨passed, ⟨oauth, access⟩, allowed, named, two, isList, -⟩ := lists
  cases args with
  | nil => cases two
  | cons cmd rest =>
    have isRole : equalFold cmd (ascii "ROLE") = true := named
    have four : cmd.length = 4 := length_of_equalFold isRole
    simp only [echo, executeEcho, lookup_of_length (by omega : cmd.length ≠ 3), find_eq_role isRole,
      familyEcho, access, Access.policy?, roleEcho_of_list two isList, Option.isSome_none,
      ite_self]

end Server

/-- An error reply is one line just if the bytes of the client in it have no CR and no LF. -/
theorem error_line_iff {pl : Platform} (documented : pl.Documented) {σ : Type} (srv : Server σ)
    (m : Moment σ) (st : ConnState) (core : Core σ) (args : List Bytes) :
    ErrorLine ((srv.administered pl).dispatch m st core args).out ↔
      ∀ text, srv.echo st core args = some text → Plain text := by
  by_cases lists : srv.ListsRoles st core args
  · obtain ⟨count, -, -, vs, -, -, same⟩ := srv.dispatch_lists m st core args lists pl
    constructor
    · intro _ text echoed
      rw [srv.echo_of_lists lists] at echoed
      cases echoed
    · intro _ error
      rw [same, header, List.cons_append, List.head?_cons] at error
      exact absurd (Option.some.inj error) (by decide)
  · cases inline : ((srv.administered pl).dispatch m st core args).job with
    | none => exact (srv.dispatch_answers m st core args documented inline lists).errorLine_iff
    | some job =>
      obtain ⟨quiet, silent⟩ := (srv.administered pl).dispatch_submitted m st core args inline
      have unechoed : srv.echo st core args = none := quiet
      rw [silent, unechoed]
      exact ⟨fun _ => plainEcho_none, fun _ error => by cases error⟩

theorem error_line_iff_unknown :
    ErrorLine (((bare .unrestricted).administered terse).dispatch bareMoment opsConn opsCore
      [ascii "HELLO"]).out := by
  refine (error_line_iff terse_documented (bare .unrestricted) bareMoment opsConn opsCore
    [ascii "HELLO"]).mpr ?_
  intro text echoed
  have repeated : text = ascii "HELLO" := by
    rw [show (bare .unrestricted).echo opsConn opsCore [ascii "HELLO"] = some (ascii "HELLO") by decide]
      at echoed
    exact (Option.some.inj echoed).symm
  rw [repeated]
  exact plain_ascii (by decide)

theorem error_line_forged :
    (((bare .unrestricted).administered terse).dispatch bareMoment opsConn opsCore
      [ascii "X'\r\n+OK\r\n-"]).out = ascii "-ERR unknown command 'X'\r\n+OK\r\n-'\r\n" ∧
    ¬ ErrorLine (((bare .unrestricted).administered terse).dispatch bareMoment opsConn opsCore
      [ascii "X'\r\n+OK\r\n-"]).out := by
  have out : (((bare .unrestricted).administered terse).dispatch bareMoment opsConn opsCore
      [ascii "X'\r\n+OK\r\n-"]).out =
        appendError [] (ascii "ERR unknown command 'X'\r\n+OK\r\n-'") := by decide
  rw [out]
  refine ⟨by decide, ?_⟩
  rw [errorLine_appendError]
  decide

end Tellstone.Resp
