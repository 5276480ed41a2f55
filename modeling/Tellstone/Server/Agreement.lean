import Tellstone.Command.Gate
import Tellstone.Resp.Codec
import Tellstone.Server.Authentication

/-! A data command over RESP and over the binary protocol: behind the same session both come to
the same call of the store or to none, and tell the client the same. -/
namespace Tellstone
open ByteStream Frontend Command

abbrev WireKey := { k : Bytes // k ≠ [] ∧ k.length ≤ 65535 }

/-- So many milliseconds, as a frame can carry them. -/
abbrev Millis := { n : Nat // 0 < n ∧ n < 2 ^ 63 }

inductive DataRequest where
  | get (key : WireKey)
  | set (key : WireKey) (value : Bytes) (ttl : Option Millis)
  | del (key : WireKey)
  deriving DecidableEq

namespace DataRequest

def command : DataRequest → DataCommand
  | get _ => .get
  | set _ _ _ => .set
  | del _ => .del

def key : DataRequest → Bytes
  | get key => key
  | set key _ _ => key
  | del key => key

def millis : DataRequest → Int
  | set _ _ (some n) => n.1
  | _ => 0

/-- What is asked of the store. The TTL is in nanoseconds, as far as they fit into 64 bits. -/
def op : DataRequest → StoreOp
  | get key => .get key
  | set key value ttl => .set key value (mulInt64 (set key value ttl).millis millisecond)
  | del key => .delete key

def args : DataRequest → List Bytes
  | get key => [ascii "GET", key]
  | set key value none => [ascii "SET", key, value]
  | set key value (some n) =>
    [ascii "SET", key, value, ascii "PX", Resp.appendDecimal [] (n.1 : Int)]
  | del key => [ascii "DEL", key]

def message (op : UInt8) (ttl : Int) (key value : Bytes) : Network.Message :=
  ⟨Network.MessageType.request.byte, op, ttl, key, value,
    op :: Network.putUintBE 2 key.length ++ Network.putUintBE 8 (word64 ttl) ++ key ++ value⟩

def frame : DataRequest → Network.Message
  | get key => message 1 0 key []
  | set key value ttl => message 2 (set key value ttl).millis key value
  | del key => message 3 0 key []

def denied (r : DataRequest) (policy : Option Rbac.Store) (session : Option Rbac.SessionContext) :
    Bool :=
  policy.isSome && !(session.any fun s => s.isAllowed r.command.rbacID r.key)

end DataRequest

inductive Learned where
  | value (b : Bytes)
  | notFound
  | stored
  | deleted
  | storageFailure
  | denied
  deriving DecidableEq, Repr

/-- The bytes of a bulk string: behind its first line, and before the last line end. -/
def Resp.bulkBody (out : Bytes) : Bytes :=
  ((out.dropWhile fun b => decide (b ≠ 10)).drop 1).dropLast.dropLast

def Resp.learned (out : Bytes) : Option Learned :=
  match out with
  | 43 :: _ => some .stored
  | 58 :: _ => some .deleted
  | 36 :: _ => if out = respNullBulk then some .notFound else some (.value (bulkBody out))
  | 45 :: text => if (ascii "NOPERM").isPrefixOf text then some .denied else some .storageFailure
  | _ => none

def DataRequest.success (r : DataRequest) (payload : Bytes) : Learned :=
  match r with
  | .get _ => .value payload
  | .set _ _ _ => .stored
  | .del _ => .deleted

def Network.learned (r : DataRequest) (out : Bytes) : Option Learned :=
  let payload := out.drop 5
  if out.getD 4 0 = MessageType.response.byte then some (r.success payload)
  else if payload = responseNotFound then some .notFound
  else if payload = responseStorageFailure then some .storageFailure
  else if payload = responseNotAuthorized then some .denied
  else none

theorem Resp.bulkBody_appendBulk (b : Bytes) : bulkBody (appendBulk [] b) = b := by
  have shape : appendBulk [] b = (36 :: decimal b.length ++ [13]) ++ 10 :: (b ++ [13] ++ [10]) := by
    simp [appendBulk, appendDecimal_nat]
  have line : ∀ c ∈ 36 :: decimal b.length ++ [13], decide (c ≠ 10) = true := by
    intro c mem
    rw [decide_eq_true_iff]
    rintro rfl
    rcases List.mem_append.mp mem with digit | last
    · rcases List.mem_cons.mp digit with first | digit
      · cases first
      · exact absurd (decimal_range digit).1 (by decide)
    · simp at last
  rw [bulkBody, shape, List.dropWhile_append_of_pos line, List.dropWhile_cons_of_neg (by decide),
    List.drop_one, List.tail_cons, List.dropLast_concat, List.dropLast_concat]

theorem Resp.appendBulk_ne_null (b : Bytes) : appendBulk [] b ≠ respNullBulk := by
  obtain ⟨d, rest, digits⟩ := List.exists_cons_of_ne_nil (decimal_ne_nil b.length)
  have digit : 48 ≤ d := (decimal_range (digits ▸ List.mem_cons_self)).1
  intro same
  have second : d = 45 := by
    have shape : appendBulk [] b = 36 :: d :: (rest ++ [13, 10] ++ b ++ [13, 10]) := by
      simp [appendBulk, appendDecimal_nat, digits]
    have both := congrArg (fun out => out.getD 1 0) (shape.symm.trans same)
    exact both
  rw [second] at digit
  exact absurd digit (by decide)

theorem Resp.learned_bulk (b : Bytes) : learned (appendBulk [] b) = some (.value b) := by
  have shape : appendBulk [] b = 36 :: (appendBulk [] b).tail := by
    simp [appendBulk, appendDecimal_nat]
  have said : learned (appendBulk [] b) =
      if appendBulk [] b = respNullBulk then some .notFound
      else some (.value (bulkBody (appendBulk [] b))) := by
    generalize appendBulk [] b = out at shape
    rw [shape]
    rfl
  rw [said, if_neg (appendBulk_ne_null b), bulkBody_appendBulk]

theorem Resp.learned_int (n : Int) : learned (appendInt [] n) = some .deleted := by
  have shape : appendInt [] n = 58 :: (appendInt [] n).tail := by
    simp [appendInt, appendDecimal]
  rw [shape]
  rfl

theorem Network.write_fields (type : MessageType) (payload : Bytes) :
    (write type payload).getD 4 0 = type.byte ∧ (write type payload).drop 5 = payload := by
  have header : (putUint 4 (1 + payload.length)).length = 4 := putUint_length ..
  constructor
  · simp [write, List.getD_eq_getElem?_getD, header]
  · simp [write, List.drop_append, header]

theorem Network.learned_response (r : DataRequest) (payload : Bytes) :
    learned r (write .response payload) = some (r.success payload) := by
  obtain ⟨type, body⟩ := write_fields .response payload
  rw [learned, if_pos type, body]

section
variable {σ : Type}

def Command.StoreOp.run (S : Store σ) (st : σ) : StoreOp → σ × Reply
  | .get key =>
    let (st, found) := S.get st key
    (st, (found.map Reply.bulk).getD .null)
  | .set key value ttl =>
    let (st, err) := S.set st key value ttl
    (st, (err.map Reply.storageErr).getD .ok)
  | .delete key =>
    let (st, found) := S.delete st key
    (st, .int (if found then 1 else 0))

theorem Command.StoreOp.run_traced (S : Store σ) (st : σ × List StoreOp) (op : StoreOp) :
    op.run S.traced st = (((op.run S st.1).1, st.2 ++ [op]), (op.run S st.1).2) := by
  cases op <;> rfl

namespace DataRequest

variable {S : Store σ} {st : σ} {c : Ctx} (r : DataRequest)

theorem set_run {name : Arg} {key value : Bytes} {rest : List Arg} {ttl : Duration}
    (shape : c.args = name :: some key :: some value :: rest)
    (parsed : parseSetTTL c.args = some ttl) :
    handler S .set c st = (StoreOp.set key value (if ttl = 0 then c.ttl else ttl)).run S st := by
  have accepted := @set_accepted σ S c st _ _ _ _ _ shape parsed
  rcases stored : S.set st key value (if ttl = 0 then c.ttl else ttl) with ⟨st', _ | err⟩ <;>
    simp [handler, accepted, StoreOp.run, aliased, stored]

theorem get_run {name : Arg} {key : Bytes} (shape : c.args = [name, some key]) :
    handler S .get c st = (StoreOp.get key).run S st := by
  rcases got : S.get st key with ⟨st', _ | val⟩ <;>
    simp [handler, Command.get, shape, StoreOp.run, aliased, got]

theorem del_run {name : Arg} {key : Bytes} (shape : c.args = [name, some key]) :
    handler S .del c st = (StoreOp.delete key).run S st := by
  rcases deleted : S.delete st key with ⟨st', _ | _⟩ <;>
    simp [handler, Command.del, shape, StoreOp.run, delKeys, aliased, deleted]

theorem parseSetTTL_px (name key value : Arg) (n : Millis) :
    parseSetTTL [name, key, value, some (ascii "PX"), some (Resp.appendDecimal [] (n.1 : Int))] =
      some (mulInt64 n.1 millisecond) := by
  have amount : atoi (aliased (some (Resp.appendDecimal [] (n.1 : Int)))) = some (n.1 : Int) := by
    rw [aliased, Option.getD_some, Resp.appendDecimal_nat, List.nil_append]
    exact Resp.atoi_decimal n.2.2
  have positive : ¬((n.1 : Int) ≤ 0) := by
    have := n.2.1
    omega
  simp only [parseSetTTL, amount, Option.bind_some, if_neg positive]
  rfl

theorem handler_args (policy : Option Rbac.Store) (session : Option Rbac.SessionContext)
    (remote : Bytes) :
    handler S r.command ⟨r.args.map some, 0, policy, session, remote⟩ st = r.op.run S st := by
  cases r with
  | get key => exact get_run rfl
  | set key value ttl =>
    cases ttl with
    | none =>
      exact set_run (c := ⟨[some (ascii "SET"), some key.1, some value], 0, policy, session, remote⟩)
        rfl rfl
    | some n =>
      refine (set_run rfl (parseSetTTL_px _ _ _ n)).trans ?_
      have same : (if mulInt64 (n.1 : Int) millisecond = 0 then 0 else mulInt64 n.1 millisecond) =
          mulInt64 n.1 millisecond := by
        split
        · rename_i zero
          exact zero.symm
        · rfl
      simp only [same]
      rfl
  | del key => exact del_run rfl

theorem execute_request {now : Nat} (found : c.args.head?.bind lookup = some r.command)
    (enough : ¬c.args.length < r.command.arity) (keys : r.command.keys c.args = [some r.key])
    (handled : handler S r.command c st = r.op.run S st) :
    execute S now c st =
      if r.denied c.policy c.session = true then
        ⟨st, c.policy.map fun p => c.deny now p r.command r.key, some (.denied r.command.lowerName)⟩
      else
        ⟨(r.op.run S st).1, c.policy.map fun p => (c.session.map p.countCommand).getD p,
          some (r.op.run S st).2⟩ := by
  have gate : c.denyKey r.command = if c.allows r.command.rbacID r.key = true then none
      else some r.key := by
    rw [denyKey_eq, keys]
    cases allowed : c.allows r.command.rbacID r.key <;> simp [aliased, allowed]
  unfold execute
  simp only [found, if_neg enough]
  cases behind : c.policy with
  | none => simp [denied, handled]
  | some policy =>
    have same : c.session.any (fun s => s.isAllowed r.command.rbacID r.key) =
        c.allows r.command.rbacID r.key := rfl
    simp only [gate, denied, same]
    cases c.allows r.command.rbacID r.key <;> simp [handled]

theorem execute_args {now : Nat} (policy : Option Rbac.Store)
    (session : Option Rbac.SessionContext) (remote : Bytes) :
    execute S now ⟨r.args.map some, 0, policy, session, remote⟩ st =
      if r.denied policy session = true then
        ⟨st, policy.map fun p => Ctx.deny now ⟨r.args.map some, 0, policy, session, remote⟩ p
          r.command r.key, some (.denied r.command.lowerName)⟩
      else
        ⟨(r.op.run S st).1, policy.map fun p => (session.map p.countCommand).getD p,
          some (r.op.run S st).2⟩ := by
  refine r.execute_request ?_ ?_ ?_ (r.handler_args policy session remote)
  · cases r with
    | get key => rfl
    | set key value ttl => cases ttl <;> rfl
    | del key => rfl
  · cases r with
    | get key => exact Nat.lt_irrefl 2
    | set key value ttl =>
      cases ttl with
      | none => exact Nat.lt_irrefl 3
      | some n => exact Nat.not_lt_of_le (show 3 ≤ 5 by decide)
    | del key => exact Nat.lt_irrefl 2
  · cases r with
    | get key => rfl
    | set key value ttl => cases ttl <;> rfl
    | del key => rfl

theorem networkHandler_frame (now : Nat) (admin : Network.Admin) (remote : Bytes)
    (policy : Option Rbac.Store) :
    Network.networkHandler S now admin r.frame remote policy st =
      ⟨(r.op.run S st).1, policy, Network.binaryReply (r.op.run S st).2⟩ := by
  have ran (args : List Bytes) (ttl : Duration)
      (found : (args.map some).head?.bind lookup = some r.command)
      (enough : ¬(args.map some).length < r.command.arity)
      (keys : r.command.keys (args.map some) = [some r.key])
      (handled : handler S r.command ⟨args.map some, ttl, none, none, remote⟩ st = r.op.run S st) :
      Network.runCommand S now args ttl remote policy st =
        ⟨(r.op.run S st).1, policy, Network.binaryReply (r.op.run S st).2⟩ := by
    have executed := @execute_request σ S st ⟨args.map some, ttl, none, none, remote⟩ r now found
      enough keys handled
    simp [Network.runCommand, executed, denied]
  cases r with
  | get key => exact ran [ascii "GET", key] 0 rfl (Nat.lt_irrefl 2) rfl (get_run rfl)
  | set key value ttl =>
    have named : ¬key.1.length = 0 := fun empty => key.2.1 (List.eq_nil_of_length_eq_zero empty)
    have whole := ran [ascii "SET", key, value]
      (mulInt64 (set key value ttl).millis millisecond) rfl (Nat.lt_irrefl 3) rfl
      (@set_run σ S st _ _ key value [] 0 rfl rfl)
    simp only [← whole]
    exact if_neg named
  | del key => exact ran [ascii "DEL", key] 0 rfl (Nat.lt_irrefl 2) rfl (del_run rfl)

end DataRequest

end

namespace DataRequest

section
variable {σ : Type} {S : Store σ} {st : σ} (r : DataRequest)

theorem learned_run (text : Error → Bytes) :
    ∃ told, told ≠ .denied ∧
      Resp.learned (Resp.respReply text [] (r.op.run S st).2) = some told ∧
      Network.learned r (Network.binaryReply (r.op.run S st).2).bytes = some told := by
  cases r with
  | get key =>
    rcases got : S.get st key with ⟨st', _ | val⟩
    · simp only [op, StoreOp.run, got, Option.map_none, Option.getD_none]
      exact ⟨.notFound, by decide, rfl, rfl⟩
    · simp only [op, StoreOp.run, got, Option.map_some, Option.getD_some]
      exact ⟨.value val, (fun same => by cases same), Resp.learned_bulk val,
        Network.learned_response _ val⟩
  | set key value ttl =>
    rcases stored : S.set st key value (mulInt64 (set key value ttl).millis millisecond)
      with ⟨st', _ | err⟩
    · simp only [op, StoreOp.run, stored, Option.map_none, Option.getD_none]
      exact ⟨.stored, by decide, rfl, Network.learned_response _ _⟩
    · simp only [op, StoreOp.run, stored, Option.map_some, Option.getD_some]
      exact ⟨.storageFailure, by decide, rfl, rfl⟩
  | del key =>
    simp only [op, StoreOp.run]
    exact ⟨.deleted, by decide, Resp.learned_int _, Network.learned_response _ _⟩

theorem resp_dispatch (srv : Resp.Server σ) (m : Moment σ) (core : Core σ) {st : ConnState}
    (authenticated : st.authenticated = true) :
    srv.dispatch m st core r.args =
      if r.denied (srv.access.policy? core) st.session = true then
        ⟨⟨core.store, ((srv.access.policy? core).map fun p => Ctx.deny m.now
            ⟨r.args.map some, 0, srv.access.policy? core, st.session, st.remoteAddr⟩ p r.command
            r.key).getD core.policy⟩, st,
          Resp.respReply srv.text [] (.denied r.command.lowerName), .data, none⟩
      else
        ⟨⟨(r.op.run (srv.store m.now) core.store).1, ((srv.access.policy? core).map fun p =>
            (st.session.map p.countCommand).getD p).getD core.policy⟩, st,
          Resp.respReply srv.text [] (r.op.run (srv.store m.now) core.store).2, .data, none⟩ := by
  have gated : srv.dispatch m st core r.args = srv.execute m st core r.args := by
    cases r with
    | get key => exact if_pos authenticated
    | set key value ttl => cases ttl <;> exact if_pos authenticated
    | del key => exact if_pos authenticated
  rw [gated, Resp.Server.execute]
  simp only [execute_args]
  cases r.denied (srv.access.policy? core) st.session <;> rfl

theorem network_dispatch (srv : Network.Server σ) (m : Moment σ) (core : Core σ) {st : ConnState}
    (authenticated : st.authenticated = true) :
    srv.dispatch m st core r.frame =
      if r.denied (srv.access.policy? core) st.session = true then
        ⟨⟨core.store, ((srv.access.policy? core).map fun p => p.incDenied.logDenied m.now
            ((st.session.map fun s => s.username).getD []) st.remoteAddr
            (Network.OpCode.name r.frame.opCode) r.frame.key).getD core.policy⟩, st,
          Network.write .error Network.responseNotAuthorized, .policy, none⟩
      else
        ⟨⟨(r.op.run (srv.store m.now) core.store).1, ((srv.access.policy? core).map fun p =>
            (st.session.map p.countCommand).getD p).getD core.policy⟩, st,
          (Network.binaryReply (r.op.run (srv.store m.now) core.store).2).bytes, .data, none⟩ := by
  have request (t : Network.MessageType) (other : t ≠ .request) : r.frame.hasType t = false := by
    have type : r.frame.type = Network.MessageType.request.byte := by cases r <;> rfl
    rw [Network.Message.hasType, type]
    revert other
    cases t <;> decide
  have ping := request .ping (by decide)
  have auth := request .auth (by decide)
  have allowed : Network.Server.opAuthorized r.frame st =
      st.session.any fun s => s.isAllowed r.command.rbacID r.key := by
    rw [Network.Server.opAuthorized, ping, auth]
    cases r <;> rfl
  have data : r.frame.kind = .data := by
    rw [Network.Message.kind, if_neg (by simp [ping])]
    cases r <;> rfl
  have run : srv.runHandler m st core r.frame =
      ⟨⟨(r.op.run (srv.store m.now) core.store).1, ((srv.access.policy? core).map fun p =>
          (st.session.map p.countCommand).getD p).getD core.policy⟩, st,
        (Network.binaryReply (r.op.run (srv.store m.now) core.store).2).bytes, .data, none⟩ := by
    simp [Network.Server.runHandler, networkHandler_frame, ping, data]
  cases behind : srv.access.policy? core with
  | none =>
    have free : ¬r.denied none st.session = true := Bool.false_ne_true
    simp [Network.Server.dispatch, auth, authenticated, behind, run, free]
  | some policy =>
    have gate : r.denied (some policy) st.session = !Network.Server.opAuthorized r.frame st := by
      rw [allowed]
      rfl
    rw [gate]
    cases may : Network.Server.opAuthorized r.frame st <;>
      simp [Network.Server.dispatch, auth, authenticated, behind, run, may]

end

end DataRequest

section
variable {σ : Type}

def Resp.Server.traced (srv : Resp.Server σ) : Resp.Server (σ × List StoreOp) :=
  { srv with store := fun now => (srv.store now).traced }

def Network.Server.traced (srv : Network.Server σ) : Network.Server (σ × List StoreOp) :=
  { srv with store := fun now => (srv.store now).traced }

/-- The same calls, store, counts, and answer to the client. -/
structure DataRequest.Agreement (r : DataRequest) (denied : Bool) (core : Core (σ × List StoreOp))
    (resp binary : Dispatched (σ × List StoreOp)) : Prop where
  calls : resp.core.store.2 = core.store.2 ++ if denied then [] else [r.op]
  store : binary.core.store = resp.core.store
  counts : binary.core.policy.commands = resp.core.policy.commands
  uncounted : denied = true → resp.core.policy.commands = core.policy.commands
  told : ∃ told, Resp.learned resp.out = some told ∧ Network.learned r binary.out = some told ∧
    (told = .denied ↔ denied = true)

/-- Both front ends deny a data command or neither does, call the store and count in the same way,
and tell both clients the same. -/
theorem front_ends_agree (resp : Resp.Server σ) (binary : Network.Server σ)
    (store : resp.store = binary.store) (access : resp.access = binary.access)
    (m : Moment (σ × List StoreOp)) (core : Core (σ × List StoreOp)) (a b : ConnState)
    (aIn : a.authenticated = true) (bIn : b.authenticated = true) (pinned : a.session = b.session)
    (r : DataRequest) :
    r.Agreement (r.denied (resp.access.policy? core) a.session) core
      (resp.traced.dispatch m a core r.args) (binary.traced.dispatch m b core r.frame) := by
  have policy : binary.traced.access.policy? core = resp.access.policy? core := by
    rw [access]
    rfl
  have same : resp.traced.access.policy? core = resp.access.policy? core := rfl
  have served : binary.traced.store m.now = resp.traced.store m.now := by
    simp only [Resp.Server.traced, Network.Server.traced, store]
  rw [r.resp_dispatch resp.traced m core aIn, r.network_dispatch binary.traced m core bIn, policy,
    same, ← pinned, served]
  cases gate : r.denied (resp.access.policy? core) a.session with
  | true =>
    refine ⟨(List.append_nil _).symm, rfl, ?_, fun _ => ?_, .denied, ?_, rfl, by simp⟩
    · cases resp.access.policy? core <;> rfl
    · cases resp.access <;> rfl
    · cases r <;> rfl
  | false =>
    have call := StoreOp.run_traced (resp.store m.now) core.store r.op
    obtain ⟨told, open', respTold, binaryTold⟩ :=
      @DataRequest.learned_run _ (resp.traced.store m.now) core.store r resp.text
    refine ⟨congrArg (fun done => done.1.2) call, rfl, rfl, (fun closed => by cases closed), told,
      respTold, binaryTold, fun same => absurd same open', fun closed => by cases closed⟩

end

def DataRequest.setTen : DataRequest :=
  .set ⟨ascii "k", by decide⟩ (ascii "v") (some ⟨10, by decide⟩)

def Frontend.Core.untouched : Core (Backend × List StoreOp) := ⟨(.empty, []), .new none 0⟩

theorem front_ends_agree_ten_millis :
    DataRequest.setTen.op = .set (ascii "k") (ascii "v") 10000000 ∧
    DataRequest.setTen.Agreement false .untouched
      (Resp.Server.sample.traced.dispatch ⟨0, id, false, [], false⟩ (.opened [] false true none)
        .untouched [ascii "SET", ascii "k", ascii "v", ascii "PX", ascii "10"])
      (Network.Server.sample.traced.dispatch ⟨0, id, false, [], false⟩ (.opened [] false true none)
        .untouched DataRequest.setTen.frame) :=
  ⟨rfl, front_ends_agree .sample .sample rfl rfl _ .untouched _ _ rfl rfl rfl .setTen⟩

end Tellstone
