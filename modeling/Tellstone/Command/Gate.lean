import Tellstone.Command

/-! What the store sees of a request behind the access gate. -/
namespace Tellstone.Command
open ByteStream

inductive StoreOp where
  | get (key : Bytes)
  | set (key value : Bytes) (ttl : Duration)
  | delete (key : Bytes)
  deriving DecidableEq, Repr

namespace StoreOp

def key : StoreOp → Bytes
  | get key => key
  | set key _ _ => key
  | delete key => key

def command : StoreOp → Rbac.Cmd
  | get _ => .get
  | set _ _ _ => .set
  | delete _ => .del

end StoreOp

def Store.traced {σ : Type} (S : Store σ) : Store (σ × List StoreOp) where
  get := fun (st, ops) key =>
    let (st, val) := S.get st key
    ((st, ops ++ [.get key]), val)
  set := fun (st, ops) key value ttl =>
    let (st, err) := S.set st key value ttl
    ((st, ops ++ [.set key value ttl]), err)
  delete := fun (st, ops) key =>
    let (st, found) := S.delete st key
    ((st, ops ++ [.delete key]), found)

def Ctx.allows (c : Ctx) (cmd : Rbac.Cmd) (key : Bytes) : Bool :=
  c.session.any fun s => s.isAllowed cmd key

def DataCommand.refuses (cmd : DataCommand) (args : List Arg) : Bool :=
  match cmd with
  | .get => decide (args.length ≠ 2)
  | .set => (parseSetTTL args).isNone
  | .del => false

def DataCommand.op (cmd : DataCommand) (c : Ctx) (k : Arg) : StoreOp :=
  match cmd with
  | .get => .get (aliased k)
  | .set => .set (aliased k) (aliased (c.args.getD 2 none))
      (if (parseSetTTL c.args).getD 0 = 0 then c.ttl else (parseSetTTL c.args).getD 0)
  | .del => .delete (aliased k)

section
variable {σ : Type} {S : Store σ} {c : Ctx} {st : σ} {cmd : DataCommand}

theorem denyKey_eq :
    c.denyKey cmd = ((cmd.keys c.args).find? fun k => !c.allows cmd.rbacID (aliased k)).join := by
  unfold Ctx.denyKey Ctx.allows
  cases c.session with
  | some session => rfl
  | none =>
    simp only [Ctx.firstKey, Option.any_none, Bool.not_false]
    cases cmd.keys c.args <;> rfl

end

def Store.blank : Store Unit where
  get := fun st _ => (st, none)
  set := fun st _ _ _ => (st, none)
  delete := fun st _ => (st, false)

def Ctx.deleting (session : Option Rbac.SessionContext) (keys : List Arg) : Ctx where
  args := some (ascii "del") :: keys
  ttl := 0
  policy := some (.new none 0)
  session := session
  remote := []

end Tellstone.Command
