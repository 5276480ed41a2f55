import Tellstone.Audit.File
import Tellstone.Rbac.Log
import Tellstone.Resp.Server

/-! A client that is turned away is written down in ACL LOG and in the audit trail. What a replay
makes of the second is compared with the first. -/
namespace Tellstone.Audit
open ByteStream Frontend

inductive Protocol where
  | resp
  | binary
  deriving DecidableEq, Repr

def Protocol.text : Protocol → Bytes
  | resp => ascii "resp"
  | binary => ascii "binary"

def denial (protocol : Protocol) (user remoteAddr cmd key : Bytes) (now : Nat)
    (fates : RecordFates) : Call :=
  ⟨now, .aclDeny, ascii "command denied by rbac policy",
    [⟨.user, .str user⟩, ⟨.command, .str cmd⟩, ⟨.key, .str key⟩, ⟨.remoteAddr, .str remoteAddr⟩,
      ⟨.protocol, .str protocol.text⟩], fates⟩

def rejection (protocol : Protocol) (user remoteAddr reason : Bytes) (now : Nat)
    (fates : RecordFates) : Call :=
  ⟨now, .authFailure, ascii "authentication failed",
    [⟨.user, .str user⟩, ⟨.remoteAddr, .str remoteAddr⟩, ⟨.reason, .str reason⟩,
      ⟨.protocol, .str protocol.text⟩], fates⟩

def userOf (session : Option Rbac.SessionContext) : Bytes :=
  (session.map fun s => s.username).getD []

inductive Site where
  /-- A data command over RESP. -/
  | deny (c : Command.Ctx) (cmd : Command.DataCommand) (key : Bytes)
  /-- A command of a family over RESP. -/
  | deniedReply (st : ConnState) (cmd key : Bytes)
  /-- A binary message. -/
  | gateMessage (st : ConnState) (msg : Network.Message)
  /-- AUTH, on either listener. -/
  | authFailed (protocol : Protocol) (st : ConnState) (username reason : Bytes)

namespace Site

def event (now : Nat) : Site → Rbac.Event
  | deny c cmd key => .denied now (userOf c.session) c.remote cmd.lowerName key
  | deniedReply st cmd key => .denied now (userOf st.session) st.remoteAddr cmd key
  | gateMessage st msg =>
    .denied now (userOf st.session) st.remoteAddr (Network.OpCode.name msg.opCode) msg.key
  | authFailed _ st username reason => .authFailure now username st.remoteAddr reason

def call (now : Nat) (fates : RecordFates) : Site → Call
  | deny c cmd key => denial .resp (userOf c.session) c.remote cmd.lowerName key now fates
  | deniedReply st cmd key => denial .resp (userOf st.session) st.remoteAddr cmd key now fates
  | gateMessage st msg =>
    denial .binary (userOf st.session) st.remoteAddr (Network.OpCode.name msg.opCode) msg.key now
      fates
  | authFailed protocol st username reason =>
    rejection protocol username st.remoteAddr reason now fates

def texts : Site → List Bytes
  | deny c cmd key => [userOf c.session, c.remote, cmd.lowerName, key]
  | deniedReply st cmd key => [userOf st.session, st.remoteAddr, cmd, key]
  | gateMessage st msg =>
    [userOf st.session, st.remoteAddr, Network.OpCode.name msg.opCode, msg.key]
  | authFailed _ st username reason => [username, st.remoteAddr, reason]

end Site

section
variable {σ : Type} {cost : Bytes → Bool}

theorem family_denied (srv : Resp.Server σ) (m : Moment σ) (st : ConnState) (core : Core σ)
    (args : List Bytes) (f : Resp.Family) {policy : Rbac.Store}
    (checked : srv.access.policy? core = some policy)
    (denied : (st.session.any fun s => s.allowsCommand f.rbacID) = false) :
    (srv.family m st core args f).core.policy =
      policy.after cost ((Site.deniedReply st f.lowerName []).event m.now) := by
  simp only [Resp.Server.family, checked, denied]
  rfl

theorem dispatch_denied (srv : Network.Server σ) (m : Moment σ) (st : ConnState) (core : Core σ)
    (msg : Network.Message) {policy : Rbac.Store} (checked : srv.access.policy? core = some policy)
    (other : msg.hasType .auth = false)
    (passed : ¬ (st.authenticated = false ∧ msg.hasType .ping = false))
    (denied : Network.Server.opAuthorized msg st = false) :
    (srv.dispatch m st core msg).core.policy =
      policy.after cost ((Site.gateMessage st msg).event m.now) := by
  simp only [Network.Server.dispatch, checked, denied, other, if_neg passed]
  rfl

theorem authFailed_logged (oauth : Bool) (protocol : Protocol) (now : Nat) (st : ConnState)
    (core : Core σ) (username reason : Bytes) :
    (Frontend.authFailed (.policy oauth) now st core username reason).2.policy =
      core.policy.after cost ((Site.authFailed protocol st username reason).event now) := rfl

end

/-- A replayed entry shows what a live one shows. -/
structure ReplayEntry.Same (r : ReplayEntry) (entry : Rbac.AuthLogEntry) : Prop where
  username : r.username = entry.username
  remoteAddr : r.remoteAddr = entry.remoteAddr
  reason : r.reason = entry.reason

section
variable {J : Codec} (documented : J.Documented)

include documented

theorem unmarshal_line (call : Call) {user remoteAddr reason cmd key : Bytes}
    (text : (entryOf J call.now call.event call.msg call.fields).record =
      some ⟨Utf8.sanitize (J.formatTime call.now), Utf8.sanitize call.event.text, user, remoteAddr,
        reason, cmd, key⟩) :
    J.unmarshal (LogEngine.line J call) =
      some ⟨J.formatTime call.now, call.event.text, user, remoteAddr, reason, cmd, key⟩ := by
  have event : Utf8.sanitize call.event.text = call.event.text := by
    cases call.event <;> decide
  rw [LogEngine.line, documented.unmarshal_encode, text, event,
    Utf8.sanitize_of_valid (documented.plain_time call.now)]

theorem decodeRecord_denial (protocol : Protocol) (user remoteAddr cmd key : Bytes) (now : Nat)
    (fates : RecordFates) :
    decodeRecord J (LogEngine.line J (denial protocol user remoteAddr cmd key now fates)) =
      some ⟨now, Utf8.sanitize user, Utf8.sanitize remoteAddr,
        ascii "NOPERM command=" ++ Utf8.sanitize cmd ++ ascii " key=" ++ Utf8.sanitize key⟩ := by
  have read := unmarshal_line documented (denial protocol user remoteAddr cmd key now fates) rfl
  have other : EventType.aclDeny.text ≠ EventType.authFailure.text := by decide
  rw [decodeRecord, read]
  simp only [denial, if_neg other, if_true, documented.parse_format, Option.map_some]

theorem decodeRecord_rejection (protocol : Protocol) (user remoteAddr reason : Bytes) (now : Nat)
    (fates : RecordFates) :
    decodeRecord J (LogEngine.line J (rejection protocol user remoteAddr reason now fates)) =
      some ⟨now, Utf8.sanitize user, Utf8.sanitize remoteAddr, Utf8.sanitize reason⟩ := by
  have read := unmarshal_line documented (rejection protocol user remoteAddr reason now fates) rfl
  rw [decodeRecord, read]
  simp only [rejection, if_true, documented.parse_format, Option.map_some]

end

theorem same_denial_iff (now now' : Nat) (user remoteAddr cmd key : Bytes) :
    ReplayEntry.Same
        ⟨now', Utf8.sanitize user, Utf8.sanitize remoteAddr,
          ascii "NOPERM command=" ++ Utf8.sanitize cmd ++ ascii " key=" ++ Utf8.sanitize key⟩
        ⟨now, user, remoteAddr, ascii "NOPERM command=" ++ cmd ++ ascii " key=" ++ key⟩ ↔
      ∀ text ∈ [user, remoteAddr, cmd, key], Utf8.valid text = true := by
  simp only [List.forall_mem_cons, ← Utf8.sanitize_eq_self_iff]
  constructor
  · rintro ⟨username, address, reason⟩
    -- replacing a byte makes a text longer, so neither part can have changed
    have sizes := congrArg List.length reason
    simp only [List.length_append] at sizes
    have command := Utf8.length_le_sanitize cmd
    have rest := Utf8.length_le_sanitize key
    have same : (Utf8.sanitize cmd).length = cmd.length := by omega
    have same' : (Utf8.sanitize key).length = key.length := by omega
    exact ⟨username, address, Utf8.sanitize_of_valid (Utf8.valid_of_length same),
      Utf8.sanitize_of_valid (Utf8.valid_of_length same'), by simp⟩
  · rintro ⟨username, address, command, rest, -⟩
    exact ⟨username, address, by rw [command, rest]⟩

theorem same_rejection_iff (now now' : Nat) (user remoteAddr reason : Bytes) :
    ReplayEntry.Same ⟨now', Utf8.sanitize user, Utf8.sanitize remoteAddr, Utf8.sanitize reason⟩
        ⟨now, user, remoteAddr, reason⟩ ↔
      ∀ text ∈ [user, remoteAddr, reason], Utf8.valid text = true := by
  simp only [List.forall_mem_cons, ← Utf8.sanitize_eq_self_iff]
  constructor
  · rintro ⟨username, address, reason⟩
    exact ⟨username, address, reason, by simp⟩
  · rintro ⟨username, address, reason, -⟩
    exact ⟨username, address, reason⟩

namespace Site

theorem replayed {J : Codec} (documented : J.Documented) (site : Site) (now later : Nat)
    (fates : RecordFates) :
    ∃ entry r, (site.event now).recorded = some entry ∧
      decodeRecord J (LogEngine.line J (site.call later fates)) = some r ∧
      (r.Same entry ↔ ∀ text ∈ site.texts, Utf8.valid text = true) := by
  cases site with
  | deny c cmd key =>
    exact ⟨_, _, rfl, decodeRecord_denial documented .., same_denial_iff ..⟩
  | deniedReply st cmd key =>
    exact ⟨_, _, rfl, decodeRecord_denial documented .., same_denial_iff ..⟩
  | gateMessage st msg =>
    exact ⟨_, _, rfl, decodeRecord_denial documented .., same_denial_iff ..⟩
  | authFailed protocol st username reason =>
    exact ⟨_, _, rfl, decodeRecord_rejection documented .., same_rejection_iff ..⟩

/-- Behind any history, a replayed entry shows the same as the live one exactly if every text is
valid UTF-8. -/
theorem replayed_same_iff {J : Codec} (documented : J.Documented) (site : Site) (now later : Nat)
    (fates : RecordFates) (policy : Option Rbac.PolicyStore) (allocated : Nat) (cost : Bytes → Bool)
    (events : List Rbac.Event) :
    ∃ entry r,
      (((Rbac.Store.new policy allocated).afterAll cost events).after cost
        (site.event now)).authLog.getLast? = some entry ∧
      decodeRecord J (LogEngine.line J (site.call later fates)) = some r ∧
      (r.Same entry ↔ ∀ text ∈ site.texts, Utf8.valid text = true) := by
  obtain ⟨entry, r, live, read, same⟩ := site.replayed documented now later fates
  refine ⟨entry, r, ?_, read, same⟩
  have fresh := Rbac.Store.new_logged policy allocated
  rw [((fresh.afterAll events).after (site.event now)).authLog, live, Rbac.buffered,
    Option.toList_some, List.drop_append_of_le_length, List.getLast?_concat]
  rw [List.length_append, List.length_singleton, Rbac.defaultAuthLogCap]
  omega

def deniedGet (key : Bytes) : Site :=
  .gateMessage (.opened [] false true none)
    ⟨Network.MessageType.request.byte, 1, 0, key, [], []⟩

theorem deniedGet_replayed :
    ∃ entry r,
      (((Rbac.Store.new none 0).afterAll (fun _ => true) []).after (fun _ => true)
        ((deniedGet (ascii "k")).event 5)).authLog.getLast? = some entry ∧
      decodeRecord .marked (LogEngine.line .marked ((deniedGet (ascii "k")).call 6 .healthy)) =
        some r ∧
      (r.Same entry ↔ ∀ text ∈ (deniedGet (ascii "k")).texts, Utf8.valid text = true) :=
  replayed_same_iff Codec.marked_documented _ 5 6 .healthy _ _ _ []

theorem replayed_key_differs :
    ∃ entry r,
      ((deniedGet [0xff]).event 5).recorded = some entry ∧
      decodeRecord .marked (LogEngine.line .marked ((deniedGet [0xff]).call 6 .healthy)) = some r ∧
      entry.reason = ascii "NOPERM command=GET key=" ++ [0xff] ∧
      r.reason = ascii "NOPERM command=GET key=" ++ [0xef, 0xbf, 0xbd] ∧ ¬ r.Same entry := by
  refine ⟨_, _, rfl, decodeRecord_denial Codec.marked_documented .., by decide, by decide, ?_⟩
  intro same
  exact absurd same.reason (by decide)

end Site

end Tellstone.Audit
