import Tellstone.Network.Payload
import Tellstone.Rbac.Listing

/-! The handlers of the ROLE and ACL frames over the policy store. -/
namespace Tellstone.Network
open ByteStream Cursor

def roleReply : Option Bytes → Answer
  | none => ⟨some responseOK, .response⟩
  | some text => ⟨some text, .error⟩

def changeReply (pl : Platform) (changed : Rbac.Store × Option Rbac.Error) : Rbac.Store × Answer :=
  (changed.1, roleReply (changed.2.map pl.rbacText))

def invalidArguments (command : Bytes) : Answer :=
  roleReply (some (ascii "invalid " ++ command ++ ascii " arguments"))

/-- SETUSER of either family; without a password option it would create a user without
password. -/
def setUserOf (pl : Platform) (family salt value : Bytes) (s : Rbac.Store) : Rbac.Store × Answer :=
  let command := family ++ ascii " SETUSER"
  match decodeRoleArgs value with
  | .ok (username :: role :: opts) =>
    if opts = [] then
      (s, roleReply (some (command ++ ascii " requires a '>password' or 'nopass' option")))
    else
      match Rbac.passwordFromOpts pl salt [] opts with
      | .error text => (s, roleReply (some text))
      | .ok passHash => changeReply pl (s.setUser username role passHash)
  | _ => (s, invalidArguments command)

def changeNamed (pl : Platform) (command value : Bytes) (s : Rbac.Store)
    (change : Bytes → Rbac.Store × Option Rbac.Error) : Rbac.Store × Answer :=
  match decodeRoleArgs value with
  | .ok [name] => changeReply pl (change name)
  | _ => (s, invalidArguments command)

def policyNotLoaded : Answer := roleReply (some (ascii "rbac policy not loaded"))

def listReply (tooLong : Bytes) : Option Bytes → Answer
  | some payload => ⟨some payload, .response⟩
  | none => roleReply (some tooLong)

def roleCreate (pl : Platform) (value : Bytes) (s : Rbac.Store) : Rbac.Store × Answer :=
  match decodeRoleArgs value with
  | .ok (name :: rule :: rules) => changeReply pl (s.createRole name (rule :: rules))
  | _ => (s, invalidArguments (ascii "ROLE CREATE"))

def roleSetUser (pl : Platform) := setUserOf pl (ascii "ROLE")

def roleDelUser (pl : Platform) (value : Bytes) (s : Rbac.Store) : Rbac.Store × Answer :=
  changeNamed pl (ascii "ROLE DELUSER") value s s.delUser

def roleDelete (pl : Platform) (value : Bytes) (s : Rbac.Store) : Rbac.Store × Answer :=
  changeNamed pl (ascii "ROLE DELETE") value s s.deleteRole

def roleListEntry (entry : Bytes × Rbac.Role) : RoleListEntry :=
  ⟨entry.1, entry.2.grantedCommands, entry.2.namespaces⟩

def roleList (s : Rbac.Store) : Answer :=
  match s.active with
  | none => policyNotLoaded
  | some p =>
    listReply (ascii "role rule exceeds the 64 KiB wire limit")
      (encodeRoleListResponse ((Rbac.sorted p.roles).map roleListEntry))

structure RoleUser where
  role : Bytes
  hasPass : Bool
  deriving DecidableEq, Repr

def encodeRoleGetUserResponse (u : RoleUser) : Bytes :=
  putUintBE 2 u.role.length ++ u.role ++ [if u.hasPass then 1 else 0]

def decodeRoleGetUserResponse (payload : Bytes) : Except Stop RoleUser :=
  if payload.length < 3 then .error .refused
  else
    (slice payload 0 2).bind fun len =>
    let n := uintBE len
    if 2 + n + 1 ≠ payload.length then .error .refused
    else
      (slice payload 2 (2 + n)).bind fun role =>
      (slice payload (2 + n) (2 + n + 1)).bind fun flag =>
      .ok ⟨role, flag == [1]⟩

theorem roleGetUserResponse_iff (u : RoleUser) :
    decodeRoleGetUserResponse (encodeRoleGetUserResponse u) = .ok u ↔ Token u.role := by
  have size : (encodeRoleGetUserResponse u).length = 2 + u.role.length + 1 := by
    simp [encodeRoleGetUserResponse]
    omega
  have len : (encodeRoleGetUserResponse u).take 2 = putUintBE 2 u.role.length := by
    rw [encodeRoleGetUserResponse, List.append_assoc, List.take_left' (putUintBE_length 2 _)]
  have value : uintBE (putUintBE 2 u.role.length) = u.role.length % 256 ^ 2 := by
    rw [uintBE, putUintBE, List.reverse_reverse, uint_putUint]
  rw [decodeRoleGetUserResponse, if_neg (by omega), slice_ok (Nat.zero_le 2) (by omega), Token,
    maxUint16]
  simp only [Except.bind, List.drop_zero, Nat.sub_zero, len, value, size]
  by_cases small : u.role.length ≤ 65535
  · have same : u.role.length % 256 ^ 2 = u.role.length := Nat.mod_eq_of_lt (by omega)
    have name : ((encodeRoleGetUserResponse u).drop 2).take u.role.length = u.role := by
      rw [encodeRoleGetUserResponse, List.append_assoc, List.drop_left' (putUintBE_length 2 _),
        List.take_left]
    have flag : (encodeRoleGetUserResponse u).drop (2 + u.role.length) =
        [if u.hasPass then 1 else 0] := by
      rw [encodeRoleGetUserResponse]
      exact List.drop_left' (by simp)
    rw [same, if_neg (not_not.mpr rfl), slice_ok (by omega) (by omega),
      slice_ok (by omega) (by omega)]
    simp only [Nat.add_sub_cancel_left, name, flag, iff_true, small]
    obtain ⟨role, hasPass⟩ := u
    cases hasPass <;> rfl
  · rw [if_pos (by omega)]
    exact ⟨fun refused => (by cases refused), fun fits => absurd fits small⟩

def roleUser (u : Rbac.User) : RoleUser := ⟨u.role, decide (0 < u.passwordHash.length)⟩

def roleGetUser (value : Bytes) (s : Rbac.Store) : Answer :=
  match decodeRoleArgs value with
  | .ok [username] =>
    match s.active with
    | none => policyNotLoaded
    | some p =>
      match p.userFor username with
      | none => roleReply (some (ascii "user '" ++ username ++ ascii "' does not exist"))
      | some u => ⟨some (encodeRoleGetUserResponse (roleUser u)), .response⟩
  | _ => invalidArguments (ascii "ROLE GETUSER")

def aclSetUser (pl : Platform) := setUserOf pl (ascii "ACL")

def aclDelUser (pl : Platform) (value : Bytes) (s : Rbac.Store) : Rbac.Store × Answer :=
  changeNamed pl (ascii "ACL DELUSER") value s s.delUser

def aclUser (p : Rbac.PolicyStore) (entry : Bytes × Rbac.User) : AclUser :=
  let r := p.roleFor entry.1
  ⟨entry.1, entry.2.role, decide (0 < entry.2.passwordHash.length),
    (r.map Rbac.Role.grantedCommands).getD [], (r.map Rbac.Role.namespaces).getD []⟩

def aclList (s : Rbac.Store) : Answer :=
  match s.active with
  | none => policyNotLoaded
  | some p =>
    listReply (ascii "acl rule exceeds the 64 KiB wire limit")
      (encodeAclListResponse ((Rbac.sorted p.users).map (aclUser p)))

def authLogEntry (pl : Platform) (e : Rbac.AuthLogEntry) : AuthLogEntry :=
  ⟨pl.formatTime e.timestamp, e.username, e.remoteAddr, e.reason⟩

def aclLog (pl : Platform) (s : Rbac.Store) : Answer :=
  listReply (ascii "acl log exceeds the 64 KiB wire limit")
    (encodeAclLogResponse (s.authLog.map (authLogEntry pl)))

def handlers (pl : Platform) (salt : Bytes) : Admin := fun op value s =>
  match op with
  | .roleCreate => roleCreate pl value s
  | .roleSetUser => roleSetUser pl salt value s
  | .roleDelUser => roleDelUser pl value s
  | .roleDelete => roleDelete pl value s
  | .roleList => (s, roleList s)
  | .roleGetUser => (s, roleGetUser value s)
  | .aclSetUser => aclSetUser pl salt value s
  | .aclDelUser => aclDelUser pl value s
  | .aclList => (s, aclList s)
  | .aclLog => (s, aclLog pl s)
  | .get | .set | .delete => (s, ⟨some responseInvalidOpCode, .error⟩)

def Server.administered {σ : Type} (srv : Server σ) (pl : Platform) : Server σ :=
  { srv with admin := handlers pl }

end Tellstone.Network
