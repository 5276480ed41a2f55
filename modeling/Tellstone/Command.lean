import Tellstone.Crypto
import Tellstone.Rbac.Policy
import Tellstone.Storage.Chronometer

/-! The data commands that both front ends share: the argument checks, the access gate,
and the handlers over a store. -/
namespace Tellstone.Command
open ByteStream

structure Store (σ : Type) where
  get : σ → Bytes → σ × Option Bytes
  set : σ → Bytes → Bytes → Duration → σ × Option Error
  delete : σ → Bytes → σ × Bool

/-- What a handler answers. Each request gets one answer. -/
inductive Reply where
  | ok
  | bulk (b : Bytes)
  | null
  | int (n : Int)
  | denied (cmd : Bytes)
  | errorMsg (text : Bytes)
  | storageErr (err : Error)
  deriving DecidableEq, Repr

def Reply.isError : Reply → Bool
  | denied _ | errorMsg _ | storageErr _ => true
  | _ => false

/-- One argument; `none` is a nil slice. -/
abbrev Arg := Option Bytes

def aliased (a : Arg) : Bytes := a.getD []

/-- One request. Without a policy there is no gate. -/
structure Ctx where
  args : List Arg
  ttl : Duration
  policy : Option Rbac.Store
  session : Option Rbac.SessionContext
  remote : Bytes

inductive DataCommand where
  | get
  | set
  | del
  deriving DecidableEq, Repr

namespace DataCommand

def name : DataCommand → Bytes
  | get => ascii "GET"
  | set => ascii "SET"
  | del => ascii "DEL"

def lowerName : DataCommand → Bytes
  | get => ascii "get"
  | set => ascii "set"
  | del => ascii "del"

def rbacID : DataCommand → Rbac.Cmd
  | get => .get
  | set => .set
  | del => .del

def arity : DataCommand → Nat
  | get => 2
  | set => 3
  | del => 2

def keys : DataCommand → List Arg → List Arg
  | get, args => (args.drop 1).take 1
  | set, args => (args.drop 1).take 1
  | del, args => args.drop 1

end DataCommand

def commands : List DataCommand := [.get, .set, .del]

def equalFoldASCII (a b : Bytes) : Bool :=
  decide (a.length = b.length) &&
    (a.zip b).all fun pair => decide (pair.1 ||| 0x20 = pair.2 ||| 0x20)

def lookup (name : Arg) : Option DataCommand :=
  commands.find? fun cmd => equalFoldASCII (aliased name) cmd.name

def wrongArguments (cmd : DataCommand) : Bytes :=
  ascii "ERR wrong number of arguments for '" ++ cmd.lowerName ++ ascii "' command"

def syntaxError : Bytes := ascii "ERR syntax error"

def mulInt64 (a b : Int) : Int := (a * b).bmod (2 ^ 64)

def second : Int := 1000000000

def millisecond : Int := 1000000

def digits (s : Bytes) : Option Nat :=
  if s.all fun b => decide (48 ≤ b ∧ b ≤ 57) then
    some (s.foldl (fun n b => 10 * n + (b.toNat - 48)) 0)
  else none

def atoi (s : Bytes) : Option Int :=
  let negative := decide (s.head? = some 45)
  let body := if negative ∨ s.head? = some 43 then s.drop 1 else s
  if body = [] then none
  else
    (digits body).bind fun n =>
      if negative then if n ≤ 2 ^ 63 then some (-n) else none
      else if n < 2 ^ 63 then some n else none

def parseSetTTL (args : List Arg) : Option Duration :=
  match args with
  | [_, _, _] => some 0
  | [_, _, _, option, amount] =>
    (atoi (aliased amount)).bind fun v =>
      if v ≤ 0 then none
      else if equalFoldASCII (aliased option) (ascii "EX") then some (mulInt64 v second)
      else if equalFoldASCII (aliased option) (ascii "PX") then some (mulInt64 v millisecond)
      else none
  | _ => none

section
variable {σ : Type}

def get (S : Store σ) (c : Ctx) (st : σ) : σ × Reply :=
  match c.args with
  | [_, key] =>
    match S.get st (aliased key) with
    | (st, none) => (st, .null)
    | (st, some val) => (st, .bulk val)
  | _ => (st, .errorMsg (wrongArguments .get))

def set (S : Store σ) (c : Ctx) (st : σ) : σ × Reply :=
  if c.args.length ≠ 3 ∧ c.args.length ≠ 5 then (st, .errorMsg (wrongArguments .set))
  else
    match parseSetTTL c.args with
    | none => (st, .errorMsg syntaxError)
    | some ttl =>
      let ttl := if ttl = 0 then c.ttl else ttl
      match S.set st (aliased (c.args.getD 1 none)) (aliased (c.args.getD 2 none)) ttl with
      | (st, some err) => (st, .storageErr err)
      | (st, none) => (st, .ok)

theorem set_refused {S : Store σ} {c : Ctx} {st : σ} (bad : parseSetTTL c.args = none) :
    (set S c st).1 = st := by
  unfold set
  rw [bad]
  split <;> rfl

theorem set_accepted {S : Store σ} {c : Ctx} {st : σ} {name key value : Arg} {rest : List Arg}
    {ttl : Duration} (shape : c.args = name :: key :: value :: rest)
    (parsed : parseSetTTL c.args = some ttl) :
    set S c st =
      match S.set st (aliased key) (aliased value) (if ttl = 0 then c.ttl else ttl) with
      | (st, some err) => (st, .storageErr err)
      | (st, none) => (st, .ok) := by
  have count : ¬(c.args.length ≠ 3 ∧ c.args.length ≠ 5) := by
    unfold parseSetTTL at parsed
    split at parsed
    · rename_i three
      simp [three]
    · rename_i five
      simp [five]
    · cases parsed
  unfold set
  rw [if_neg count, parsed]
  simp only [shape, List.getD_cons_succ, List.getD_cons_zero]

def delKeys (S : Store σ) (st : σ) : List Arg → σ × Nat
  | [] => (st, 0)
  | k :: keys =>
    let (st, found) := S.delete st (aliased k)
    let (st, n) := delKeys S st keys
    (st, if found then n + 1 else n)

def del (S : Store σ) (c : Ctx) (st : σ) : σ × Reply :=
  if c.args.length < 2 then (st, .errorMsg (wrongArguments .del))
  else
    let (st, n) := delKeys S st (c.args.drop 1)
    (st, .int n)

def handler (S : Store σ) (cmd : DataCommand) (c : Ctx) (st : σ) : σ × Reply :=
  match cmd with
  | .get => get S c st
  | .set => set S c st
  | .del => del S c st

namespace Ctx

def firstKey (c : Ctx) (cmd : DataCommand) : Arg := (cmd.keys c.args).head?.join

/-- The first key the session may not use; a nil answer stands for no such key. -/
def denyKey (c : Ctx) (cmd : DataCommand) : Arg :=
  match c.session with
  | none => c.firstKey cmd
  | some session =>
    ((cmd.keys c.args).find? fun k => !session.isAllowed cmd.rbacID (aliased k)).join

def deny (now : Nat) (c : Ctx) (policy : Rbac.Store) (cmd : DataCommand) (key : Bytes) :
    Rbac.Store :=
  policy.incDenied.logDenied now ((c.session.map fun s => s.username).getD []) c.remote
    cmd.lowerName key

end Ctx

/-- How a request ends. Without a reply the command is not one of these. -/
structure Outcome (σ : Type) where
  store : σ
  policy : Option Rbac.Store
  reply : Option Reply

def execute (S : Store σ) (now : Nat) (c : Ctx) (st : σ) : Outcome σ :=
  match c.args.head?.bind lookup with
  | none => ⟨st, c.policy, none⟩
  | some cmd =>
    if c.args.length < cmd.arity then ⟨st, c.policy, some (.errorMsg (wrongArguments cmd))⟩
    else
      match c.policy with
      | none =>
        let (st, reply) := handler S cmd c st
        ⟨st, none, some reply⟩
      | some policy =>
        match c.denyKey cmd with
        | some key => ⟨st, some (c.deny now policy cmd key), some (.denied cmd.lowerName)⟩
        | none =>
          let policy := (c.session.map policy.countCommand).getD policy
          let (st, reply) := handler S cmd c st
          ⟨st, some policy, some reply⟩

section
variable {S : Store σ} {now : Nat} {c : Ctx} {st : σ} {cmd : DataCommand} {reply : Reply}

theorem execute_replies (found : c.args.head?.bind lookup = some cmd) :
    ∃ reply, (execute S now c st).reply = some reply := by
  unfold execute
  simp only [found]
  split
  · exact ⟨_, rfl⟩
  · split
    · exact ⟨_, rfl⟩
    · split <;> exact ⟨_, rfl⟩

theorem execute_accepted (found : c.args.head?.bind lookup = some cmd)
    (replied : (execute S now c st).reply = some reply) (accepted : reply.isError = false) :
    handler S cmd c st = ((execute S now c st).store, reply) := by
  unfold execute at replied ⊢
  simp only [found] at replied ⊢
  split at replied
  · cases replied
    cases accepted
  · rename_i enough
    rw [if_neg enough]
    rcases behind : c.policy with _ | policy
    · simp only [behind] at replied ⊢
      cases replied
      rfl
    · rcases denied : c.denyKey cmd with _ | key
      · simp only [behind, denied] at replied ⊢
        cases replied
        rfl
      · simp only [behind, denied] at replied
        cases replied
        cases accepted

theorem set_stored {st' : σ} (ran : set S c st = (st', reply)) (accepted : reply.isError = false) :
    ∃ ttl, parseSetTTL c.args = some ttl ∧
      S.set st (aliased (c.args.getD 1 none)) (aliased (c.args.getD 2 none))
        (if ttl = 0 then c.ttl else ttl) = (st', none) := by
  unfold set at ran
  split at ran
  · cases ran
    cases accepted
  · rcases parsed : parseSetTTL c.args with _ | ttl
    · simp only [parsed] at ran
      cases ran
      cases accepted
    · simp only [parsed] at ran
      refine ⟨ttl, rfl, ?_⟩
      split at ran
      · cases ran
        cases accepted
      · rename_i stored
        cases ran
        exact stored

end

end

end Tellstone.Command
