import Tellstone.Resp.Admin
import Tellstone.Resp.Gate

/-! Each command is answered with one RESP2 value; ROLE LIST is the exception. -/
namespace Tellstone.Resp
open ByteStream EventLoop Frontend Resp2

section
variable {n : Nat} {a b : Bytes}

theorem appendDecimal_eq (dst : Bytes) (n : Int) :
    appendDecimal dst n = dst ++ Resp2.number n := by
  simp only [appendDecimal, Resp2.number, Resp2.digits, ascii, String.toList_ofList,
    List.append_assoc]

theorem adds_bulk (adds : Adds n a b) (text : Bytes) : Adds (n + 1) a (appendBulk b text) := by
  have one := adds.value (.bulk text)
  simpa [appendBulk, appendDecimal_eq, Value.encode, Resp2.line] using one

theorem adds_null (adds : Adds n a b) : Adds (n + 1) a (appendNullBulk b) := adds.value .null

theorem adds_int (adds : Adds n a b) (i : Int) : Adds (n + 1) a (appendInt b i) := by
  have one := adds.value (.int i)
  simpa [appendInt, appendDecimal_eq, Value.encode, Resp2.line] using one

theorem adds_simple (adds : Adds n a b) {text : Bytes} (plain : Plain text) :
    Adds (n + 1) a (appendSimpleString b text) := by
  have one := adds.value (.simple plain)
  simpa [appendSimpleString, Value.encode, Resp2.line] using one

theorem adds_error (adds : Adds n a b) {text : Bytes} (plain : Plain text) :
    Adds (n + 1) a (appendError b text) := by
  have one := adds.value (.error plain)
  simpa [appendError, Value.encode, Resp2.line] using one

theorem adds_ok (adds : Adds n a b) : Adds (n + 1) a (b ++ respOK) :=
  adds.value (.simple (by decide : Plain (ascii "OK")))

theorem appendArray_eq (dst : Bytes) (n : Nat) : appendArray dst n = dst ++ header n := by
  simp [appendArray, appendDecimal_eq, header, Resp2.line]

theorem adds_array (adds : Adds n (appendArray a n) b) : Adds 1 a b := by
  rw [appendArray_eq] at adds
  exact adds.array

theorem adds_list {α : Type} {step : Bytes → α → Bytes} {xs : List α}
    (each : ∀ x ∈ xs, ∀ out, Adds 1 out (step out x)) :
    Adds 1 a (xs.foldl step (appendArray a xs.length)) := by
  have all := Adds.foldl_const each (appendArray a xs.length)
  rw [Nat.one_mul] at all
  exact adds_array all

theorem adds_bulks (texts : List Bytes) : Adds 1 a (appendBulks a texts) :=
  adds_list fun text _ out => adds_bulk (.refl out) text

theorem adds_simples {texts : List Bytes} (plain : ∀ text ∈ texts, Plain text) :
    Adds 1 a (appendSimpleStringArray a texts) :=
  adds_list fun text mem out => adds_simple (.refl out) (plain text mem)

end

theorem plain_wrongNumber {command : Bytes} (plain : Plain command) : Plain (wrongNumber command) := by
  simp only [wrongNumber, plain_append]
  exact ⟨⟨plain_ascii (by decide), plain⟩, plain_ascii (by decide)⟩

/-- One value behind `a`; or an error line that repeats bytes of the client as they came. -/
def Answers (echo : Option Bytes) (a b : Bytes) : Prop :=
  match echo with
  | none => Adds 1 a b
  | some text => ∃ before after, Plain before ∧ Plain after ∧
      b = appendError a (before ++ text ++ after)

theorem answers_echo {before after : Bytes} (a text : Bytes) (front : Plain before)
    (back : Plain after) : Answers (some text) a (appendError a (before ++ text ++ after)) :=
  ⟨before, after, front, back, rfl⟩

theorem answers_one {a b : Bytes} (one : Adds 1 a b) : Answers none a b := one

theorem answers_error (a : Bytes) {text : Bytes} (plain : Plain text) :
    Answers none a (appendError a text) := adds_error (.refl a) plain

theorem answers_ite {p : Prop} [Decidable p] {echo echo' : Option Bytes} {a b b' : Bytes}
    (yes : p → Answers echo a b) (no : Answers echo' a b') :
    Answers (if p then echo else echo') a (if p then b else b') := by
  split
  · rename_i holds
    exact yes holds
  · exact no

def PlainEcho (echo : Option Bytes) : Prop := ∀ text, echo = some text → Plain text

theorem plainEcho_none : PlainEcho none := fun _ echoed => by cases echoed

theorem plainEcho_some {text : Bytes} (plain : Plain text) : PlainEcho (some text) :=
  fun _ echoed => Option.some.inj echoed ▸ plain

theorem plainEcho_ite {p : Prop} [Decidable p] {echo echo' : Option Bytes} (yes : PlainEcho echo)
    (no : PlainEcho echo') : PlainEcho (if p then echo else echo') := by
  split
  · exact yes
  · exact no

theorem Answers.adds {echo : Option Bytes} {a b : Bytes} (answers : Answers echo a b)
    (plain : PlainEcho echo) : Adds 1 a b := by
  cases echo with
  | none => exact answers
  | some text =>
    obtain ⟨before, after, front, back, rfl⟩ := answers
    apply adds_error (.refl a)
    exact plain_append.mpr ⟨plain_append.mpr ⟨front, plain text rfl⟩, back⟩

/-- The texts that a command shows as simple strings are plain. -/
inductive CommandSpec.Fine : CommandSpec → Prop where
  | intro {c : CommandSpec} (flags : ∀ f ∈ c.flags, Plain (ascii f))
      (subs : ∀ sub ∈ c.subs, sub.Fine) : Fine c

theorem respCommands_fine {c : CommandSpec} (mem : c ∈ respCommands) : c.Fine := by
  have flags : ∀ c ∈ respCommands, ∀ f ∈ c.flags, Plain (ascii f) := by decide
  have subs : ∀ c ∈ respCommands, ∀ sub ∈ c.subs, sub.flags = [] ∧ sub.subs.length = 0 := by decide
  refine .intro (flags c mem) fun sub below => ?_
  obtain ⟨noFlags, noSubs⟩ := subs c mem sub below
  refine .intro ?_ ?_
  · rw [noFlags]
    exact fun _ mem => absurd mem List.not_mem_nil
  · rw [List.eq_nil_of_length_eq_zero noSubs]
    exact fun _ mem => absurd mem List.not_mem_nil

theorem findCommand_fine {name : Bytes} {c : CommandSpec} {parent : Option Bytes}
    (found : findCommand name = some (c, parent)) : c.Fine := by
  unfold findCommand at found
  split at found
  · rename_i top
    cases found
    exact respCommands_fine (List.mem_of_find?_eq_some top)
  · obtain ⟨idx, -, below⟩ := Option.bind_eq_some_iff.mp found
    obtain ⟨above, mem, sub⟩ := List.exists_of_findSome?_eq_some below
    split at sub
    · obtain ⟨sub, isSub, same⟩ := Option.map_eq_some_iff.mp sub
      cases same
      obtain ⟨-, subs⟩ := respCommands_fine mem
      exact subs _ (List.mem_of_find?_eq_some isSub)
    · cases sub

theorem aclCategories_plain (name : Bytes) : ∀ cat ∈ aclCategories name, Plain (ascii "@" ++ cat) := by
  have all : ∀ c ∈ Rbac.categories, Plain (ascii "@" ++ c.1) := by decide
  intro cat mem
  unfold aclCategories at mem
  split at mem
  · cases found : Rbac.lookupCommand name with
    | none => simp [found] at mem
    | some cmd =>
      simp only [found, Option.map_some, Option.getD_some, Rbac.categoriesForCommand,
        Rbac.sortStrings, List.mem_insertionSort] at mem
      obtain ⟨c, isCategory, rfl⟩ := List.mem_map.mp mem
      exact all c (List.mem_filter.mp isCategory).1
  · cases mem

theorem appendACLCats_adds (name out : Bytes) :
    Adds 1 out (appendACLCats out (aclCategories name)) := by
  apply adds_simples
  intro text mem
  obtain ⟨cat, isCategory, rfl⟩ := List.mem_map.mp mem
  exact aclCategories_plain name cat isCategory

theorem appendKeySpecs_adds (out : Bytes) (flags : List String) (firstKey lastKey step : Int) :
    Adds 1 out (appendKeySpecs out flags firstKey lastKey step) := by
  unfold appendKeySpecs
  split
  · exact adds_array (.refl _)
  · have plain : ∀ text ∈ (if flags.contains "write" then ["RW", "access", "update"]
        else ["RO", "access"]).map ascii, Plain text := by
      split <;> decide
    -- Each array ends with its last element, so that they are closed from the inside out.
    have flagList (out : Bytes) := adds_bulk ((adds_bulk (.refl out) (ascii "flags")).trans
      (adds_simples plain)) (ascii "begin_search")
    have search (out : Bytes) := adds_array ((adds_bulk (adds_bulk (adds_bulk (.refl _)
      (ascii "type")) (ascii "index")) (ascii "spec")).trans (adds_array (adds_int (adds_bulk
      (.refl (appendArray _ 2)) (ascii "index")) firstKey)) : Adds 4 (appendArray out 4) _)
    have range (out : Bytes) := adds_array (adds_int (adds_bulk (adds_int (adds_bulk (adds_int
      (adds_bulk (.refl (appendArray out 6)) (ascii "lastkey"))
      (if lastKey = -1 then -1 else lastKey - firstKey)) (ascii "keystep")) step)
      (ascii "limit")) 0)
    have find (out : Bytes) := adds_array ((adds_bulk (adds_bulk (adds_bulk (.refl _)
      (ascii "type")) (ascii "range")) (ascii "spec")).trans (range _) : Adds 4 (appendArray out 4) _)
    exact adds_array (adds_array ((adds_bulk ((flagList _).trans (search _))
      (ascii "find_keys")).trans (find _)))

theorem appendSubcommands_adds {parent : Bytes} {subs : List CommandSpec}
    (each : ∀ sub ∈ subs, ∀ out, Adds 1 out (appendCommandInfo out (some parent) sub)) (out : Bytes) :
    Adds subs.length out (appendSubcommands out parent subs) := by
  induction subs generalizing out with
  | nil => exact .refl out
  | cons sub subs ih =>
    rw [appendSubcommands, List.length_cons, Nat.add_comm]
    exact (each sub List.mem_cons_self out).trans
      (ih (fun sub mem => each sub (List.mem_cons_of_mem _ mem)) _)

theorem appendCommandInfo_adds {c : CommandSpec} (fine : c.Fine) (parent : Option Bytes)
    (out : Bytes) : Adds 1 out (appendCommandInfo out parent c) := by
  induction fine generalizing parent out with
  | @intro c flags subs ih =>
    obtain ⟨name, arity, flagNames, firstKey, lastKey, step, _, _, _, _, below⟩ := c
    have plain : ∀ text ∈ flagNames.map ascii, Plain text := List.forall_mem_map.mpr flags
    simp only [appendCommandInfo]
    have named := adds_int (adds_bulk (.refl (appendArray out 10)) (fullName parent name)) arity
    have keys := adds_int (adds_int (adds_int (named.trans (adds_simples plain)) firstKey) lastKey)
      step
    have tips := (keys.trans (appendACLCats_adds (fullName parent name) _)).trans
      (adds_array (.refl (appendArray _ 0)))
    have specs := tips.trans (appendKeySpecs_adds _ flagNames firstKey lastKey step)
    have subcommands (out : Bytes) := adds_array
      (appendSubcommands_adds (fun sub mem out => ih sub mem (some (fullName parent name)) out)
        (appendArray out below.length))
    have ten := specs.trans (subcommands _)
    exact adds_array ten

theorem appendCommandDoc_adds (parent : Option Bytes) (out : Bytes) (c : CommandSpec) :
    Adds 2 out (appendCommandDoc parent out c) := by
  have named := adds_bulk (.refl out) (fullName parent c.name)
  have summary (out : Bytes) := adds_bulk (adds_bulk (.refl (appendArray out 8)) (ascii "summary"))
    (ascii c.summary)
  have since (out : Bytes) := adds_bulk (adds_bulk (summary out) (ascii "since")) (ascii c.since)
  have group (out : Bytes) := adds_bulk (adds_bulk (since out) (ascii "group")) (ascii c.group)
  exact named.trans (adds_array (adds_bulk (adds_bulk (group _) (ascii "complexity"))
    (ascii c.complexity)))

theorem appendCommandDocSubs_adds (out : Bytes) (c : CommandSpec) :
    Adds (2 * c.subs.length) out (appendCommandDocSubs out c) :=
  Adds.foldl_const (fun sub _ out => appendCommandDoc_adds _ out sub) out

theorem commandInfoAll_adds (out : Bytes) : Adds 1 out (commandInfoAll out) :=
  adds_list fun _ mem out => appendCommandInfo_adds (respCommands_fine mem) none out

theorem commandInfo_adds (args : List Bytes) (out : Bytes) : Adds 1 out (commandInfo args out) := by
  unfold commandInfo
  split
  · exact commandInfoAll_adds out
  · rw [← List.length_drop]
    apply adds_list
    intro name _ out
    split
    · rename_i found
      exact appendCommandInfo_adds (findCommand_fine found) _ out
    · exact adds_null (.refl out)

theorem commandDocs_adds (args : List Bytes) (out : Bytes) : Adds 1 out (commandDocs args out) := by
  unfold commandDocs
  split
  · have count : 2 * respCommands.foldl (fun n c => n + (1 + c.subs.length)) 0 =
        respCommands.foldl (fun n c => n + (2 + 2 * c.subs.length)) 0 := rfl
    simp only [count]
    apply adds_array
    exact Adds.foldl (fun c _ out => (appendCommandDoc_adds none out c).trans
      (appendCommandDocSubs_adds _ c)) (.refl _)
  · apply adds_array
    refine Adds.foldl (fun name _ out => ?_) (.refl _)
    unfold docCount
    split
    · exact (appendCommandDoc_adds none out _).trans (appendCommandDocSubs_adds _ _)
    · exact appendCommandDoc_adds _ out _
    · exact .refl out

/-- What COMMAND LIST repeats of its arguments: a filter that it does not know. -/
def listEcho (args : List Bytes) : Option Bytes :=
  let kind := args.getD 3 []
  if args.length = 2 then none
  else if equalFold (args.getD 2 []) (ascii "FILTERBY") then
    if args.length ≠ 5 then none
    else if equalFold kind (ascii "MODULE") then none
    else if equalFold kind (ascii "ACLCAT") then none
    else if equalFold kind (ascii "PATTERN") then none
    else some kind
  else none

theorem commandList_answers (args : List Bytes) (out : Bytes) :
    Answers (listEcho args) out (commandList args out) := by
  apply answers_ite (fun _ => answers_one (adds_bulks _))
  apply answers_ite
  · intro _
    apply answers_ite (fun _ => answers_error out (plain_wrongNumber (plain_ascii (by decide))))
    apply answers_ite (fun _ => answers_one (adds_bulks _))
    apply answers_ite (fun _ => answers_one (adds_bulks _))
    apply answers_ite (fun _ => answers_one (adds_bulks _))
    exact answers_echo out _ (plain_ascii (by decide)) (plain_ascii (by decide))
  · exact answers_error out (plain_ascii (by decide))

/-- What COMMAND repeats of its arguments: an unknown subcommand, or what LIST repeats. -/
def commandEcho (args : List Bytes) : Option Bytes :=
  let sub := args.getD 1 []
  if args.length = 1 then none
  else if equalFold sub (ascii "COUNT") then none
  else if equalFold sub (ascii "DOCS") then none
  else if equalFold sub (ascii "INFO") then none
  else if equalFold sub (ascii "LIST") then listEcho args
  else if equalFold sub (ascii "HELP") then none
  else some sub

theorem command_answers (args : List Bytes) (out : Bytes) :
    Answers (commandEcho args) out (command args out) := by
  apply answers_ite (fun _ => answers_one (commandInfoAll_adds out))
  apply answers_ite
  · intro _
    unfold commandCount
    split
    · exact answers_error out (plain_wrongNumber (plain_ascii (by decide)))
    · exact adds_int (.refl out) _
  apply answers_ite (fun _ => answers_one (commandDocs_adds args out))
  apply answers_ite (fun _ => answers_one (commandInfo_adds args out))
  apply answers_ite (fun _ => commandList_answers args out)
  apply answers_ite
  · intro _
    unfold commandHelp
    split
    · exact answers_error out (plain_wrongNumber (plain_ascii (by decide)))
    · exact adds_bulks _
  exact answers_echo out _ (plain_ascii (by decide)) (plain_ascii (by decide))

section
variable {pl : Platform} (documented : pl.Documented)
include documented

theorem appendChanged_adds (out : Bytes) (err : Option Rbac.Error) :
    Adds 1 out (appendChanged pl out err) := by
  cases err with
  | none => exact adds_ok (.refl out)
  | some err =>
    apply adds_error (.refl out)
    exact plain_append.mpr ⟨plain_ascii (by decide), Platform.rbacText_plain documented err⟩

theorem setUserOf_adds {family : Bytes} (plain : Plain family) (salt : Bytes) (args : List Bytes)
    (out : Bytes) (s : Rbac.Store) : Adds 1 out (setUserOf pl family salt args out s).2 := by
  unfold setUserOf
  split
  · apply adds_error (.refl out)
    exact plain_wrongNumber (plain_append.mpr ⟨plain, plain_ascii (by decide)⟩)
  split
  · apply adds_error (.refl out)
    simp only [plain_append]
    exact ⟨⟨plain_ascii (by decide), plain⟩, plain_ascii (by decide)⟩
  unfold setUser
  cases hashed : Rbac.passwordFromOpts pl salt [] (args.drop 4) with
  | error text =>
    apply adds_error (.refl out)
    exact plain_append.mpr
      ⟨plain_ascii (by decide), Rbac.passwordFromOpts_plain documented hashed⟩
  | ok passHash => exact appendChanged_adds documented out _

theorem delUserOf_adds {family : Bytes} (plain : Plain family) (args : List Bytes) (out : Bytes)
    (s : Rbac.Store) : Adds 1 out (delUserOf pl family args out s).2 := by
  unfold delUserOf
  split
  · apply adds_error (.refl out)
    exact plain_wrongNumber (plain_append.mpr ⟨plain, plain_ascii (by decide)⟩)
  · exact appendChanged_adds documented out _

theorem roleCreate_adds (args : List Bytes) (out : Bytes) (s : Rbac.Store) :
    Adds 1 out (roleCreate pl args out s).2 := by
  unfold roleCreate
  split
  · exact adds_error (.refl out) (plain_wrongNumber (plain_ascii (by decide)))
  · exact appendChanged_adds documented out _

theorem roleDelete_adds (args : List Bytes) (out : Bytes) (s : Rbac.Store) :
    Adds 1 out (roleDelete pl args out s).2 := by
  unfold roleDelete
  split
  · exact adds_error (.refl out) (plain_wrongNumber (plain_ascii (by decide)))
  · exact appendChanged_adds documented out _

end

def ListsRoles (args : List Bytes) (s : Rbac.Store) : Prop :=
  args.length = 2 ∧ equalFold (args.getD 1 []) (ascii "LIST") = true ∧
    ∃ p, s.active = some p ∧ p.roles.keys ≠ []

theorem roleList_adds {args : List Bytes} (two : args.length = 2) {s : Rbac.Store}
    {p : Rbac.PolicyStore} (loaded : s.active = some p) (out : Bytes) :
    Adds (3 * p.roles.keys.length) (out ++ header p.roles.keys.length) (roleList args out s) := by
  rw [roleList, if_neg (not_not_intro two), loaded, ← Rbac.length_sorted, ← appendArray_eq]
  apply Adds.foldl_const
  intro entry _ out
  exact ((adds_bulk (.refl out) entry.1).trans (adds_bulks entry.2.grantedCommands)).trans
    (adds_bulks entry.2.namespaces)

theorem roleList_one {args : List Bytes} {s : Rbac.Store}
    (isList : equalFold (args.getD 1 []) (ascii "LIST") = true) (unlisted : ¬ ListsRoles args s)
    (out : Bytes) : Adds 1 out (roleList args out s) := by
  by_cases two : args.length = 2
  · cases loaded : s.active with
    | none =>
      rw [roleList, if_neg (not_not_intro two), loaded]
      exact adds_error (.refl out) (plain_ascii (by decide))
    | some p =>
      have empty : p.roles.keys = [] := by
        by_contra present
        exact unlisted ⟨two, isList, p, loaded, present⟩
      have listed := roleList_adds two loaded out
      rw [empty] at listed
      exact listed.array
  · rw [roleList, if_pos two]
    exact adds_error (.refl out) (plain_wrongNumber (plain_ascii (by decide)))

theorem role_list {args : List Bytes} (two : args.length = 2)
    (isList : equalFold (args.getD 1 []) (ascii "LIST") = true) (pl : Platform) (salt out : Bytes)
    (s : Rbac.Store) : role pl salt args out s = (s, roleList args out s) := by
  have other (name : String) (differs : ascii name ≠ ascii "LIST") :
      ¬ equalFold (args.getD 1 []) (ascii name) = true :=
    fun same => differs (eq_of_equalFold same isList)
  simp only [role]
  rw [if_neg (by omega), if_neg (other "CREATE" (by decide)), if_neg (other "SETUSER" (by decide)),
    if_neg (other "DELUSER" (by decide)), if_neg (other "DELETE" (by decide)), if_pos isList]

theorem adds_roleName {n : Nat} {a b : Bytes} (adds : Adds n a b) (role : Bytes) :
    Adds (n + 1) a (appendRoleName b role) := by
  unfold appendRoleName
  split
  · exact adds_null adds
  · exact adds_bulk adds role

def getUserEcho (args : List Bytes) (s : Rbac.Store) : Option Bytes :=
  if args.length ≠ 3 then none
  else
    match s.active with
    | none => none
    | some p => if p.userFor (args.getD 2 []) = none then some (args.getD 2 []) else none

theorem roleGetUser_answers (args : List Bytes) (out : Bytes) (s : Rbac.Store) :
    Answers (getUserEcho args s) out (roleGetUser args out s) := by
  apply answers_ite (fun _ => answers_error out (plain_wrongNumber (plain_ascii (by decide))))
  cases s.active with
  | none => exact answers_error out (plain_ascii (by decide))
  | some p =>
    cases found : p.userFor (args.getD 2 []) with
    | none =>
      simp only [found, ↓reduceIte]
      exact answers_echo out _ (plain_ascii (by decide)) (plain_ascii (by decide))
    | some u =>
      simp only [found, reduceCtorEq, ↓reduceIte]
      have named := adds_bulk (.refl (appendArray out 3)) (args.getD 2 [])
      exact adds_array (adds_int (adds_roleName named u.role) (hasPass u))

/-- What ROLE repeats of its arguments: an unknown subcommand, or what GETUSER repeats. -/
def roleEcho (args : List Bytes) (s : Rbac.Store) : Option Bytes :=
  let sub := args.getD 1 []
  if args.length < 2 then none
  else if equalFold sub (ascii "CREATE") then none
  else if equalFold sub (ascii "SETUSER") then none
  else if equalFold sub (ascii "DELUSER") then none
  else if equalFold sub (ascii "DELETE") then none
  else if equalFold sub (ascii "LIST") then none
  else if equalFold sub (ascii "GETUSER") then getUserEcho args s
  else some sub

theorem roleEcho_of_list {args : List Bytes} (two : args.length = 2)
    (isList : equalFold (args.getD 1 []) (ascii "LIST") = true) (s : Rbac.Store) :
    roleEcho args s = none := by
  have other (name : String) (differs : ascii name ≠ ascii "LIST") :
      ¬ equalFold (args.getD 1 []) (ascii name) = true :=
    fun same => differs (eq_of_equalFold same isList)
  simp only [roleEcho]
  rw [if_neg (by omega), if_neg (other "CREATE" (by decide)), if_neg (other "SETUSER" (by decide)),
    if_neg (other "DELUSER" (by decide)), if_neg (other "DELETE" (by decide)), if_pos isList]

theorem roleEcho_congr {s s' : Rbac.Store} (same : s.active = s'.active) (args : List Bytes) :
    roleEcho args s = roleEcho args s' := by
  simp only [roleEcho, getUserEcho, same]

def aclEcho (args : List Bytes) : Option Bytes :=
  let sub := args.getD 1 []
  if args.length < 2 then none
  else if equalFold sub (ascii "SETUSER") then none
  else if equalFold sub (ascii "DELUSER") then none
  else if equalFold sub (ascii "LIST") then none
  else if equalFold sub (ascii "LOG") then none
  else some sub

theorem appendUser_adds (p : Rbac.PolicyStore) (out : Bytes) (entry : Bytes × Rbac.User) :
    Adds 1 out (appendUser p out entry) := by
  obtain ⟨name, u⟩ := entry
  have commands (out : Bytes) : Adds 1 out (appendACLCommands out (p.roleFor name)) := by
    cases p.roleFor name with
    | none => exact adds_array (.refl _)
    | some r => exact adds_bulks _
  have namespaces (out : Bytes) : Adds 1 out (appendACLNamespaces out (p.roleFor name)) := by
    cases p.roleFor name with
    | none => exact adds_array (.refl _)
    | some r => exact adds_bulks _
  have named := adds_bulk (.refl (appendArray out 5)) name
  have flagged := adds_int (adds_roleName named u.role) (hasPass u)
  have five := (flagged.trans (commands _)).trans (namespaces _)
  exact adds_array five

theorem aclList_adds (args : List Bytes) (out : Bytes) (s : Rbac.Store) :
    Adds 1 out (aclList args out s) := by
  unfold aclList
  split
  · exact adds_error (.refl out) (plain_wrongNumber (plain_ascii (by decide)))
  · split
    · exact adds_error (.refl out) (plain_ascii (by decide))
    · exact adds_list fun entry _ out => appendUser_adds _ out entry

theorem aclLog_adds (pl : Platform) (args : List Bytes) (out : Bytes) (s : Rbac.Store) :
    Adds 1 out (aclLog pl args out s) := by
  unfold aclLog
  split
  · exact adds_error (.refl out) (plain_wrongNumber (plain_ascii (by decide)))
  · apply adds_list
    intro e _ out
    have who := adds_bulk (adds_bulk (.refl (appendArray out 4)) (pl.formatTime e.timestamp))
      e.username
    exact adds_array (adds_bulk (adds_bulk who e.remoteAddr) e.reason)

section
variable {pl : Platform} (documented : pl.Documented)
include documented

theorem role_answers {args : List Bytes} {s : Rbac.Store} (unlisted : ¬ ListsRoles args s)
    (salt out : Bytes) : Answers (roleEcho args s) out (role pl salt args out s).2 := by
  have plain : Plain (ascii "role") := plain_ascii (by decide)
  simp only [role, apply_ite Prod.snd]
  apply answers_ite (fun _ => answers_error out (plain_wrongNumber plain))
  apply answers_ite (fun _ => answers_one (roleCreate_adds documented args out s))
  apply answers_ite (fun _ => answers_one (setUserOf_adds documented plain salt args out s))
  apply answers_ite (fun _ => answers_one (delUserOf_adds documented plain args out s))
  apply answers_ite (fun _ => answers_one (roleDelete_adds documented args out s))
  apply answers_ite (fun isList => answers_one (roleList_one isList unlisted out))
  apply answers_ite (fun _ => roleGetUser_answers args out s)
  exact answers_echo out _ (plain_ascii (by decide)) (plain_ascii (by decide))

theorem acl_answers (args : List Bytes) (salt out : Bytes) (s : Rbac.Store) :
    Answers (aclEcho args) out (acl pl salt args out s).2 := by
  have plain : Plain (ascii "acl") := plain_ascii (by decide)
  simp only [acl, apply_ite Prod.snd]
  apply answers_ite (fun _ => answers_error out (plain_wrongNumber plain))
  apply answers_ite (fun _ => answers_one (setUserOf_adds documented plain salt args out s))
  apply answers_ite (fun _ => answers_one (delUserOf_adds documented plain args out s))
  apply answers_ite (fun _ => answers_one (aclList_adds args out s))
  apply answers_ite (fun _ => answers_one (aclLog_adds pl args out s))
  exact answers_echo out _ (plain_ascii (by decide)) (plain_ascii (by decide))

end

end Tellstone.Resp
