import Tellstone.Network.Protocol
import Tellstone.Router

/-! The server behind both front ends: the store of the data commands over the router,
and the handler of the frames of the binary protocol. -/
namespace Tellstone
open ByteStream

/-- The router, and how many calls it has served; the latter numbers the faults. -/
structure Backend where
  router : Router
  calls : Nat

/-- What the device does to the append of the n-th call and to the one that takes it back. -/
abbrev Faults := Nat → Fault × Fault

def Faults.healthy : Faults := fun _ => (none, none)

namespace Backend

def empty : Backend := ⟨.pair 0, 0⟩

def request (now : Time) (faults : Faults) (b : Backend) (op : Op) (key value : Bytes)
    (ttl : Duration) : Request :=
  ⟨now, op, key, value, ttl, (faults b.calls).1, (faults b.calls).2⟩

def dispatch (P : Primitives) (now : Time) (faults : Faults) (b : Backend) (op : Op)
    (key value : Bytes) (ttl : Duration) : Backend × Response :=
  let (router, response) := b.router.dispatch P (b.request now faults op key value ttl)
  (⟨router, b.calls + 1⟩, response)

end Backend

/-- A delete hands on whether the key was there, and nothing else. -/
def routerStore (P : Primitives) (now : Time) (faults : Faults) : Command.Store Backend where
  get b key :=
    let (b, response) := b.dispatch P now faults .get key [] 0
    (b, if response.ok then some (response.value.getD []) else none)
  set b key value ttl :=
    let (b, response) := b.dispatch P now faults .set key value ttl
    (b, response.err)
  delete b key :=
    let (b, response) := b.dispatch P now faults .del key [] 0
    (b, response.ok)

namespace Network

/-- The answer to a frame, with the store and the policy behind it. -/
structure Handled (σ : Type) where
  store : σ
  policy : Option Rbac.Store
  answer : Answer

/-- The handlers of the ROLE and ACL frames, over the value field. -/
abbrev Admin := OpCode → Bytes → Rbac.Store → Rbac.Store × Answer

section
variable {σ : Type}

/-- A data frame through the command layer, which sees neither policy nor session. -/
def runCommand (S : Command.Store σ) (now : Nat) (args : List Bytes) (ttl : Duration)
    (remote : Bytes) (policy : Option Rbac.Store) (st : σ) : Handled σ :=
  let out := Command.execute S now ⟨args.map some, ttl, none, none, remote⟩ st
  ⟨out.store, policy, (out.reply.map binaryReply).getD ⟨none, .ping⟩⟩

def rbacDisabled : Answer := ⟨some (ascii "rbac not enabled"), .error⟩

def Admin.none : Admin := fun _ _ p => (p, rbacDisabled)

def networkHandler (S : Command.Store σ) (now : Nat) (admin : Admin) (msg : Message)
    (remote : Bytes) (policy : Option Rbac.Store) (st : σ) : Handled σ :=
  if msg.hasType .ping then ⟨st, policy, ⟨none, .pong⟩⟩
  else
    match msg.opCode with
    | some .get => runCommand S now [ascii "GET", msg.key] 0 remote policy st
    | some .set =>
      if msg.key.length = 0 then ⟨st, policy, ⟨some responseEmptyKey, .error⟩⟩
      else
        runCommand S now [ascii "SET", msg.key, msg.value]
          (Command.mulInt64 msg.ttl Command.millisecond) remote policy st
    | some .delete => runCommand S now [ascii "DEL", msg.key] 0 remote policy st
    | some op =>
      match policy with
      | none => ⟨st, none, rbacDisabled⟩
      | some p =>
        let (p, answer) := admin op msg.value p
        ⟨st, some p, answer⟩
    | none => ⟨st, policy, ⟨some responseInvalidOpCode, .error⟩⟩

theorem runCommand_accepted {S : Command.Store σ} {now : Nat} {name : Bytes} {args : List Bytes}
    {ttl : Duration} {remote : Bytes} {policy : Option Rbac.Store} {st : σ}
    {cmd : Command.DataCommand} (found : Command.lookup (some name) = some cmd)
    (accepted : (runCommand S now (name :: args) ttl remote policy st).answer.type ≠ .error) :
    ∃ reply, (Command.execute S now ⟨(name :: args).map some, ttl, none, none, remote⟩ st).reply =
      some reply ∧ reply.isError = false := by
  have answered : ∃ reply,
      (Command.execute S now ⟨(name :: args).map some, ttl, none, none, remote⟩ st).reply =
        some reply := Command.execute_replies found
  obtain ⟨reply, replied⟩ := answered
  refine ⟨reply, replied, isError_of_binaryReply ?_⟩
  simpa only [runCommand, replied, Option.map_some, Option.getD_some] using accepted

end

end Network

end Tellstone
