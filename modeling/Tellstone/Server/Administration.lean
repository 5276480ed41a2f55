import Tellstone.Network.Admin
import Tellstone.Rbac.Log
import Tellstone.Resp.Dispatch

/-! What administrators see over the binary protocol: the role of a user, and the security log. -/
namespace Tellstone.Network
open ByteStream Cursor Frontend

variable {σ : Type}

def Truthful (u : Rbac.User) (answer : Answer) : Prop :=
  answer.type = .error ∨
    ∃ payload, answer = ⟨some payload, .response⟩ ∧
      decodeRoleGetUserResponse payload = .ok (roleUser u)

theorem truthful_iff (u : Rbac.User) :
    Truthful u ⟨some (encodeRoleGetUserResponse (roleUser u)), .response⟩ ↔ Token u.role := by
  have reads : decodeRoleGetUserResponse (encodeRoleGetUserResponse (roleUser u)) =
      .ok (roleUser u) ↔ Token u.role := roleGetUserResponse_iff (roleUser u)
  rw [Truthful, ← reads]
  constructor
  · intro truthful
    obtain error | ⟨payload, same, decoded⟩ := truthful
    · cases error
    · cases same
      exact decoded
  · intro decoded
    exact Or.inr ⟨_, rfl, decoded⟩

section
variable (pl : Platform) (salt : Bytes) (S : Command.Store σ) (now : Nat) {msg : Message}
  (remote : Bytes) {s : Rbac.Store} (st : σ) {p : Rbac.PolicyStore} {username : Bytes}
  {u : Rbac.User}

theorem networkHandler_getUser (request : msg.hasType .ping = false)
    (op : msg.opCode = some .roleGetUser) (args : decodeRoleArgs msg.value = .ok [username])
    (active : s.active = some p) (found : p.userFor username = some u) :
    (networkHandler S now (handlers pl salt) msg remote (some s) st).answer =
      ⟨some (encodeRoleGetUserResponse (roleUser u)), .response⟩ := by
  simp only [networkHandler, request, op, handlers, roleGetUser, args, active, found,
    Bool.false_eq_true, if_false]

/-- ROLE GETUSER tells the truth just if the name of the role fits a length of two bytes. -/
theorem roleGetUser_truthful_iff (request : msg.hasType .ping = false)
    (op : msg.opCode = some .roleGetUser) (args : decodeRoleArgs msg.value = .ok [username])
    (active : s.active = some p) (found : p.userFor username = some u) :
    Truthful u (networkHandler S now (handlers pl salt) msg remote (some s) st).answer ↔
      Token u.role := by
  rw [networkHandler_getUser pl salt S now remote st request op args active found]
  exact truthful_iff u

end

def getBob : Message :=
  ⟨MessageType.request.byte, 9, 0, [], [0, 1, 0, 3] ++ ascii "bob", []⟩

/-- The store after ROLE CREATE and ROLE SETUSER over RESP, with a role of this name for bob. -/
def bobIn (pl : Platform) (role : Bytes) : Rbac.Store :=
  let created := (Resp.role pl [] [ascii "ROLE", ascii "CREATE", role, ascii "~*"] []
    (.new (some .empty) 0)).1
  (Resp.role pl [] [ascii "ROLE", ascii "SETUSER", ascii "bob", role, ascii "nopass"] [] created).1

theorem bobIn_active (pl : Platform) (role : Bytes) :
    ∃ p, (bobIn pl role).active = some p ∧ p.userFor (ascii "bob") = some ⟨role, []⟩ := by
  obtain ⟨r, parsed⟩ : ∃ r, Rbac.parseRole 0 role [ascii "~*"] = .ok r := ⟨_, rfl⟩
  let roles := (∅ : AList fun _ : Bytes => Rbac.Role).insert role r
  have created : ((Rbac.Store.new (some .empty) 0).createRole role [ascii "~*"]).1 =
      .new (some { Rbac.PolicyStore.empty with roles := roles }) 1 := by
    simp only [Rbac.Store.createRole, Rbac.Store.new, parsed]
    rfl
  have made : (Resp.role pl [] [ascii "ROLE", ascii "CREATE", role, ascii "~*"] []
      (.new (some .empty) 0)).1 = ((Rbac.Store.new (some .empty) 0).createRole role [ascii "~*"]).1 :=
    rfl
  have set (s : Rbac.Store) :
      (Resp.role pl [] [ascii "ROLE", ascii "SETUSER", ascii "bob", role, ascii "nopass"] [] s).1 =
        (s.setUser (ascii "bob") role []).1 :=
    rfl
  rw [bobIn, set, made, created, Rbac.Store.setUser, if_neg]
  · exact ⟨_, rfl, AList.lookup_insert _⟩
  · show roles.lookup role ≠ none
    rw [AList.lookup_insert]
    exact Option.some_ne_none _

def bare : Server Unit where
  store := (Resp.bare .unrestricted).store
  access := .policy false
  tls := false
  maxMsgSize := 1048576
  compare _ _ := false
  admin _ := .none

theorem roleGetUser_truthful_iff_bob : Truthful ⟨ascii "admin", []⟩
    (networkHandler (bare.store 0) 0 (handlers Resp.terse []) getBob []
      (some (bobIn Resp.terse (ascii "admin"))) ()).answer := by
  obtain ⟨p, active, found⟩ := bobIn_active Resp.terse (ascii "admin")
  exact (roleGetUser_truthful_iff Resp.terse [] (bare.store 0) 0 [] () (by decide) (by decide)
    (by decide) active found).mpr (by decide)

theorem roleGetUser_untruthful :
    let role : Bytes := List.replicate 65536 97
    ¬ Truthful ⟨role, []⟩
      (networkHandler (bare.store 0) 0 (handlers Resp.terse []) getBob []
        (some (bobIn Resp.terse role)) ()).answer := by
  intro role
  have size : role.length = 65536 := List.length_replicate
  clear_value role
  intro truthful
  obtain ⟨p, active, found⟩ := bobIn_active Resp.terse role
  rw [networkHandler_getUser Resp.terse [] (bare.store 0) 0 [] () (by decide) (by decide)
    (by decide) active found] at truthful
  have fits := (truthful_iff _).mp truthful
  rw [Token, size, maxUint16] at fits
  omega

def Shows (pl : Platform) (entries : List Rbac.AuthLogEntry) (out : Bytes) : Prop :=
  ∃ payload, out = write .response payload ∧
    decodeAclLogResponse payload = .ok (entries.map (authLogEntry pl))

theorem write_type {type type' : MessageType} {payload payload' : Bytes}
    (same : write type payload = write type' payload') : type.byte = type'.byte := by
  have at4 (t : MessageType) (p : Bytes) : (write t p)[4]? = some t.byte := by
    rw [write, List.getElem?_append_right (by simp)]
    simp
  have fourth := congrArg (fun bytes : Bytes => bytes[4]?) same
  simp only [at4] at fourth
  exact Option.some.inj fourth

theorem encodeAclLog_iff {pl : Platform} (times : ∀ t, Token (pl.formatTime t))
    {entries : List Rbac.AuthLogEntry} (few : entries.length ≤ Rbac.defaultAuthLogCap) :
    (∃ payload, encodeAclLogResponse (entries.map (authLogEntry pl)) = some payload) ↔
      ∀ e ∈ entries, Token e.username ∧ Token e.remoteAddr ∧ Token e.reason := by
  have format := (counted_format authLogEntry_format).appends
  constructor
  · intro encodes e mem
    obtain ⟨payload, encoded⟩ := encodes
    have fits := ((format _ _ _).mp encoded).1.2 _ (List.mem_map_of_mem mem)
    exact fits.2
  · intro fits
    refine ⟨_, (format _ _ _).mpr ⟨⟨?_, ?_⟩, rfl⟩⟩
    · rw [List.length_map]
      exact Nat.le_trans few (by decide)
    · intro entry mem
      obtain ⟨e, listed, rfl⟩ := List.mem_map.mp mem
      exact ⟨times e.timestamp, fits e listed⟩

theorem aclLog_shows_iff_fits {pl : Platform} (times : ∀ t, Token (pl.formatTime t))
    {s : Rbac.Store} (few : s.authLog.length ≤ Rbac.defaultAuthLogCap) :
    Shows pl s.authLog (aclLog pl s).bytes ↔
      ∀ e ∈ s.authLog, Token e.username ∧ Token e.remoteAddr ∧ Token e.reason := by
  rw [← encodeAclLog_iff times few, aclLog]
  constructor
  · intro shows
    obtain ⟨payload, same, -⟩ := shows
    cases encoded : encodeAclLogResponse (s.authLog.map (authLogEntry pl)) with
    | none =>
      rw [encoded] at same
      exact absurd (write_type same) (by decide)
    | some payload => exact ⟨payload, rfl⟩
  · intro encodes
    obtain ⟨payload, encoded⟩ := encodes
    rw [encoded]
    exact ⟨payload, rfl, ((counted_format authLogEntry_format).inverts encoded).whole⟩

theorem dispatch_aclLog (srv : Server σ) (pl : Platform) (m : Moment σ) {st : ConnState}
    {core : Core σ} {msg : Message} {session : Rbac.SessionContext} {oauth : Bool}
    (access : srv.access = .policy oauth) (authenticated : st.authenticated = true)
    (logged : st.session = some session) (admin : session.allowsCommand .acl = true)
    (request : msg.type = MessageType.request.byte) (op : msg.opCode = some .aclLog) :
    ((srv.administered pl).dispatch m st core msg).out =
      (aclLog pl (core.policy.countCommand session)).bytes := by
  have notPing : msg.hasType .ping = false := by simp [Message.hasType, request, MessageType.byte]
  have notAuth : msg.hasType .auth = false := by simp [Message.hasType, request, MessageType.byte]
  have policy : (srv.administered pl).access.policy? core = some core.policy := by
    rw [Server.administered, access]
    rfl
  have authorized : Server.opAuthorized msg st = true := by
    simp [Server.opAuthorized, logged, op, admin]
  simp only [Server.dispatch, notAuth, authenticated, policy, authorized, Server.runHandler,
    networkHandler, notPing, op, logged, Bool.false_eq_true, Bool.true_eq_false, false_and, if_false,
    if_true, Option.map_some, Option.getD_some]
  rfl

section
variable (srv : Server σ) {pl : Platform} (times : ∀ t, Token (pl.formatTime t)) (m : Moment σ)
  {st : ConnState} {core : Core σ} {msg : Message} {session : Rbac.SessionContext} {oauth : Bool}
include times

theorem dispatch_shows_iff {history : List Rbac.AuthLogEntry}
    (access : srv.access = .policy oauth) (authenticated : st.authenticated = true)
    (loggedIn : st.session = some session) (admin : session.allowsCommand .acl = true)
    (request : msg.type = MessageType.request.byte) (op : msg.opCode = some .aclLog)
    (logged : core.policy.Logged history) :
    Shows pl (Rbac.buffered history) ((srv.administered pl).dispatch m st core msg).out ↔
      ∀ e ∈ Rbac.buffered history, Token e.username ∧ Token e.remoteAddr ∧ Token e.reason := by
  have counted : (core.policy.countCommand session).Logged history := by
    refine logged.of_same ?_
    unfold Rbac.Store.countCommand
    split <;> exact ⟨rfl, rfl, rfl⟩
  have few : (core.policy.countCommand session).authLog.length ≤ Rbac.defaultAuthLogCap := by
    rw [counted.authLog, Rbac.buffered, List.length_drop]
    omega
  rw [dispatch_aclLog srv pl m access authenticated loggedIn admin request op, ← counted.authLog]
  exact aclLog_shows_iff_fits times few

/-- After any run an authorized ACL LOG shows what is buffered just if every field fits a length
of two bytes. -/
theorem aclLog_shows_iff {cost : Bytes → Bool} {s : Rbac.Store} {past : List Rbac.AuthLogEntry}
    {events : List Rbac.Event}
    (access : srv.access = .policy oauth) (authenticated : st.authenticated = true)
    (loggedIn : st.session = some session) (admin : session.allowsCommand .acl = true)
    (request : msg.type = MessageType.request.byte) (op : msg.opCode = some .aclLog)
    (logged : s.Logged past) (ran : core.policy = s.afterAll cost events) :
    Shows pl (Rbac.buffered (past ++ events.filterMap Rbac.Event.recorded))
        ((srv.administered pl).dispatch m st core msg).out ↔
      ∀ e ∈ Rbac.buffered (past ++ events.filterMap Rbac.Event.recorded),
        Token e.username ∧ Token e.remoteAddr ∧ Token e.reason := by
  refine dispatch_shows_iff srv times m access authenticated loggedIn admin request op ?_
  rw [ran]
  exact logged.afterAll events

end

def timeless : Platform := { Resp.terse with formatTime := fun _ => ascii "1970-01-01T00:00:00Z" }

theorem timeless_times (t : Nat) : Token (timeless.formatTime t) := by
  show Token (ascii "1970-01-01T00:00:00Z")
  decide

def eveConn : ConnState := .opened [] false true (some (.new (ascii "eve") none))

def auditor : Rbac.Role := ⟨0, ascii "auditor", (Rbac.Bitset.new []).set Rbac.Cmd.acl.id, []⟩

def auditConn : ConnState := .opened [] false true (some (.new (ascii "bob") (some auditor)))

def getKey (key : Bytes) : Message :=
  let get : Message := ⟨MessageType.request.byte, 1, 0, key, [], []⟩
  { get with payload := get.body }

def askLog : Message := ⟨MessageType.request.byte, 13, 0, [], [], []⟩

def refusedCore (key : Bytes) : Core Unit :=
  (bare.dispatch Resp.bareMoment eveConn ⟨(), .new (some .empty) 0⟩ (getKey key)).core

def refusal (key : Bytes) : Rbac.Event := .denied 0 (ascii "eve") [] (ascii "GET") key

theorem refusedCore_policy (key : Bytes) :
    (refusedCore key).policy =
      (Rbac.Store.new (some .empty) 0).afterAll (fun _ => true) [refusal key] :=
  rfl

theorem aclLog_shows_iff_short :
    Shows timeless
      [⟨0, ascii "eve", [], ascii "NOPERM command=" ++ ascii "GET" ++ ascii " key=" ++ [107]⟩]
      ((bare.administered timeless).dispatch Resp.bareMoment auditConn (refusedCore [107])
        askLog).out :=
  (aclLog_shows_iff bare timeless_times Resp.bareMoment rfl rfl rfl (by decide) rfl rfl
    (Rbac.Store.new_logged _ _) (refusedCore_policy [107])).mpr (by decide)

theorem getKey_decodes {key : Bytes} (fits : key.length ≤ 65535) :
    decode (getKey key).marshal bare.maxMsgSize = .ok (11 + key.length, getKey key) := by
  have body : (getKey key).body.length = 11 + key.length := (getKey key).body_length
  have full : (getKey key).body ≠ [] := List.cons_ne_nil _ _
  have limit : bare.maxMsgSize = 1048576 := rfl
  have legal : 1 + (getKey key).body.length ≤ bare.maxMsgSize := by omega
  have small : 1 + (getKey key).body.length < 2 ^ 32 - 4 := by omega
  have whole : (frame (getKey key).type (getKey key).body ++ []).length < 2 ^ 32 := by
    rw [List.append_nil, frame_length]
    omega
  have ttl : -2 ^ 63 ≤ (getKey key).ttl ∧ (getKey key).ttl < 2 ^ 63 := by
    show (-2 ^ 63 : Int) ≤ 0 ∧ (0 : Int) < 2 ^ 63
    decide
  have fields := decodePayload_body rfl (fits : (getKey key).key.length ≤ 65535) ttl
  have decoded := decode_frame [] legal small whole
  rw [List.append_nil, framed, if_neg full, fields, body] at decoded
  rw [Message.marshal_request rfl]
  exact decoded

theorem refusedCore_hides {key : Bytes} (long : 65513 ≤ key.length) :
    ¬ Shows timeless (refusedCore key).policy.authLog
      ((bare.administered timeless).dispatch Resp.bareMoment auditConn (refusedCore key)
        askLog).out := by
  have logged : (refusedCore key).policy.Logged (refusal key).recorded.toList := by
    rw [refusedCore_policy]
    exact (Rbac.Store.new_logged _ _).afterAll [refusal key]
  rw [logged.authLog, dispatch_shows_iff bare timeless_times Resp.bareMoment rfl rfl rfl
    (by decide) rfl rfl logged]
  intro fits
  have reason := (fits ⟨0, ascii "eve", [], _⟩ List.mem_cons_self).2.2
  have words : (ascii "NOPERM command=").length = 15 ∧ (ascii "GET").length = 3 ∧
      (ascii " key=").length = 5 := by decide
  simp only [Token, maxUint16, List.length_append, words] at reason
  omega

theorem aclLog_hidden :
    let key : Bytes := List.replicate 65535 107
    decode (getKey key).marshal bare.maxMsgSize = .ok (11 + key.length, getKey key) ∧
    ¬ Shows timeless (refusedCore key).policy.authLog
      ((bare.administered timeless).dispatch Resp.bareMoment auditConn (refusedCore key)
        askLog).out := by
  have size : (List.replicate 65535 (107 : UInt8)).length = 65535 := List.length_replicate
  exact ⟨getKey_decodes (Nat.le_of_eq size), refusedCore_hides (by omega)⟩

end Tellstone.Network
