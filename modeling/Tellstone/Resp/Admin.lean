import Tellstone.Resp.Catalog
import Tellstone.Resp.Server

/-! The ROLE and ACL families over the policy store. -/
namespace Tellstone.Resp
open ByteStream

def appendChanged (pl : Platform) (out : Bytes) : Option Rbac.Error → Bytes
  | none => out ++ respOK
  | some err => appendError out (ascii "ERR " ++ pl.rbacText err)

def setUser (pl : Platform) (salt : Bytes) (args : List Bytes) (out : Bytes) (s : Rbac.Store) :
    Rbac.Store × Bytes :=
  match Rbac.passwordFromOpts pl salt [] (args.drop 4) with
  | .error text => (s, appendError out (ascii "ERR " ++ text))
  | .ok passHash =>
    let (s, err) := s.setUser (args.getD 2 []) (args.getD 3 []) passHash
    (s, appendChanged pl out err)

/-- SETUSER of either family; without a password option it would create a user without
password. -/
def setUserOf (pl : Platform) (family : Bytes) (salt : Bytes) (args : List Bytes) (out : Bytes)
    (s : Rbac.Store) : Rbac.Store × Bytes :=
  if args.length < 4 then (s, appendError out (wrongNumber (family ++ ascii "|setuser")))
  else if args.length = 4 then
    (s, appendError out
      (ascii "ERR " ++ family ++ ascii "|setuser requires a '>password' or 'nopass' option"))
  else setUser pl salt args out s

def delUserOf (pl : Platform) (family : Bytes) (args : List Bytes) (out : Bytes) (s : Rbac.Store) :
    Rbac.Store × Bytes :=
  if args.length ≠ 3 then (s, appendError out (wrongNumber (family ++ ascii "|deluser")))
  else
    let (s, err) := s.delUser (args.getD 2 [])
    (s, appendChanged pl out err)

def appendRoleName (out role : Bytes) : Bytes :=
  if role = [] then appendNullBulk out else appendBulk out role

def hasPass (u : Rbac.User) : Int := if 0 < u.passwordHash.length then 1 else 0

def roleCreate (pl : Platform) (args : List Bytes) (out : Bytes) (s : Rbac.Store) :
    Rbac.Store × Bytes :=
  if args.length < 4 then (s, appendError out (wrongNumber (ascii "role|create")))
  else
    let (s, err) := s.createRole (args.getD 2 []) (args.drop 3)
    (s, appendChanged pl out err)

def roleSetUser (pl : Platform) := setUserOf pl (ascii "role")

def roleDelUser (pl : Platform) := delUserOf pl (ascii "role")

def roleDelete (pl : Platform) (args : List Bytes) (out : Bytes) (s : Rbac.Store) :
    Rbac.Store × Bytes :=
  if args.length ≠ 3 then (s, appendError out (wrongNumber (ascii "role|delete")))
  else
    let (s, err) := s.deleteRole (args.getD 2 [])
    (s, appendChanged pl out err)

def appendRoleCommands (out : Bytes) (r : Rbac.Role) : Bytes := appendBulks out r.grantedCommands

def appendRoleNamespaces (out : Bytes) (r : Rbac.Role) : Bytes := appendBulks out r.namespaces

def roleList (args : List Bytes) (out : Bytes) (s : Rbac.Store) : Bytes :=
  if args.length ≠ 2 then appendError out (wrongNumber (ascii "role|list"))
  else
    match s.active with
    | none => appendError out (ascii "ERR policy not loaded")
    | some p =>
      let names := Rbac.sorted p.roles
      names.foldl
        (fun out (name, r) =>
          appendRoleNamespaces (appendRoleCommands (appendBulk out name) r) r)
        (appendArray out names.length)

def roleGetUser (args : List Bytes) (out : Bytes) (s : Rbac.Store) : Bytes :=
  if args.length ≠ 3 then appendError out (wrongNumber (ascii "role|getuser"))
  else
    let username := args.getD 2 []
    match s.active with
    | none => appendError out (ascii "ERR policy not loaded")
    | some p =>
      match p.userFor username with
      | none => appendError out (ascii "ERR user '" ++ username ++ ascii "' does not exist")
      | some u =>
        let out := appendArray out 3
        let out := appendBulk out username
        let out := appendRoleName out u.role
        appendInt out (hasPass u)

def role (pl : Platform) (salt : Bytes) (args : List Bytes) (out : Bytes) (s : Rbac.Store) :
    Rbac.Store × Bytes :=
  let sub := args.getD 1 []
  if args.length < 2 then (s, appendError out (wrongNumber (ascii "role")))
  else if equalFold sub (ascii "CREATE") then roleCreate pl args out s
  else if equalFold sub (ascii "SETUSER") then roleSetUser pl salt args out s
  else if equalFold sub (ascii "DELUSER") then roleDelUser pl args out s
  else if equalFold sub (ascii "DELETE") then roleDelete pl args out s
  else if equalFold sub (ascii "LIST") then (s, roleList args out s)
  else if equalFold sub (ascii "GETUSER") then (s, roleGetUser args out s)
  else (s, appendError out (ascii "ERR unknown role subcommand '" ++ sub ++ ascii "'"))

def aclSetUser (pl : Platform) := setUserOf pl (ascii "acl")

def aclDelUser (pl : Platform) := delUserOf pl (ascii "acl")

def appendACLCommands (out : Bytes) : Option Rbac.Role → Bytes
  | none => appendArray out 0
  | some r => appendBulks out r.grantedCommands

def appendACLNamespaces (out : Bytes) : Option Rbac.Role → Bytes
  | none => appendArray out 0
  | some r => appendBulks out r.namespaces

/-- One user: the role that is assigned, and what the effective role permits. -/
def appendUser (p : Rbac.PolicyStore) (out : Bytes) (entry : Bytes × Rbac.User) : Bytes :=
  let (name, u) := entry
  let r := p.roleFor name
  let out := appendArray out 5
  let out := appendBulk out name
  let out := appendRoleName out u.role
  let out := appendInt out (hasPass u)
  let out := appendACLCommands out r
  appendACLNamespaces out r

def aclList (args : List Bytes) (out : Bytes) (s : Rbac.Store) : Bytes :=
  if args.length ≠ 2 then appendError out (wrongNumber (ascii "acl|list"))
  else
    match s.active with
    | none => appendError out (ascii "ERR policy not loaded")
    | some p =>
      let names := Rbac.sorted p.users
      names.foldl (appendUser p) (appendArray out names.length)

def appendLogEntry (pl : Platform) (out : Bytes) (e : Rbac.AuthLogEntry) : Bytes :=
  let out := appendArray out 4
  let out := appendBulk out (pl.formatTime e.timestamp)
  let out := appendBulk out e.username
  let out := appendBulk out e.remoteAddr
  appendBulk out e.reason

def aclLog (pl : Platform) (args : List Bytes) (out : Bytes) (s : Rbac.Store) : Bytes :=
  if args.length ≠ 2 then appendError out (wrongNumber (ascii "acl|log"))
  else
    let entries := s.authLog
    entries.foldl (appendLogEntry pl) (appendArray out entries.length)

def acl (pl : Platform) (salt : Bytes) (args : List Bytes) (out : Bytes) (s : Rbac.Store) :
    Rbac.Store × Bytes :=
  let sub := args.getD 1 []
  if args.length < 2 then (s, appendError out (wrongNumber (ascii "acl")))
  else if equalFold sub (ascii "SETUSER") then aclSetUser pl salt args out s
  else if equalFold sub (ascii "DELUSER") then aclDelUser pl args out s
  else if equalFold sub (ascii "LIST") then (s, aclList args out s)
  else if equalFold sub (ascii "LOG") then (s, aclLog pl args out s)
  else (s, appendError out (ascii "ERR unknown acl subcommand '" ++ sub ++ ascii "'"))

def overPolicy (out : Bytes) (handler : Rbac.Store → Rbac.Store × Bytes) :
    Option Rbac.Store → Option Rbac.Store × Bytes
  | none => (none, appendError out (ascii "ERR RBAC is not enabled"))
  | some s =>
    let (s, out) := handler s
    (some s, out)

def handlers (pl : Platform) : Admin := fun salt family args policy =>
  match family with
  | .command => (policy, command args [])
  | .role => overPolicy [] (role pl salt args []) policy
  | .acl => overPolicy [] (acl pl salt args []) policy

/-- The server with the handlers above, and with errors that read as in the source. -/
def Server.administered {σ : Type} (srv : Server σ) (pl : Platform) : Server σ :=
  { srv with admin := handlers pl, text := pl.errorText }

end Tellstone.Resp
