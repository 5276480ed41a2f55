import Tellstone.Lib.ByteStream

/-! Roles of the access control: the command catalogue, the permission bitset, and the parser of
role rules. -/
namespace Tellstone.Rbac
open ByteStream

inductive Cmd where
  | get
  | set
  | del
  | ping
  | command
  | auth
  | role
  | acl
  | info
  | flush
  | shutdown
  | config
  | debug
  | monitor
  | user
  | grant
  | revoke
  deriving DecidableEq, Repr

namespace Cmd

def id : Cmd → UInt16
  | get => 1
  | set => 2
  | del => 3
  | ping => 4
  | command => 5
  | auth => 6
  | role => 7
  | acl => 8
  | info => 9
  | flush => 10
  | shutdown => 11
  | config => 12
  | debug => 13
  | monitor => 14
  | user => 15
  | grant => 16
  | revoke => 17

def name : Cmd → Bytes
  | get => ascii "GET"
  | set => ascii "SET"
  | del => ascii "DEL"
  | ping => ascii "PING"
  | command => ascii "COMMAND"
  | auth => ascii "AUTH"
  | role => ascii "ROLE"
  | acl => ascii "ACL"
  | info => ascii "INFO"
  | flush => ascii "FLUSH"
  | shutdown => ascii "SHUTDOWN"
  | config => ascii "CONFIG"
  | debug => ascii "DEBUG"
  | monitor => ascii "MONITOR"
  | user => ascii "USER"
  | grant => ascii "GRANT"
  | revoke => ascii "REVOKE"

end Cmd

def allCommands : List Cmd :=
  [.get, .set, .del, .ping, .command, .auth, .role, .acl, .info, .flush, .shutdown, .config,
    .debug, .monitor, .user, .grant, .revoke]

/-- strings.ToUpper on ASCII; long s and dotless i have an ASCII capital too. -/
def toUpper : Bytes → Bytes
  | 0xc5 :: 0xbf :: rest => 83 :: toUpper rest
  | 0xc4 :: 0xb1 :: rest => 73 :: toUpper rest
  | b :: rest => (if 97 ≤ b ∧ b ≤ 122 then b - 32 else b) :: toUpper rest
  | [] => []

/-- strings.ToLower on ASCII; dotted capital I and the Kelvin sign have an ASCII small letter too.
-/
def toLower : Bytes → Bytes
  | 0xc4 :: 0xb0 :: rest => 105 :: toLower rest
  | 0xe2 :: 0x84 :: 0xaa :: rest => 107 :: toLower rest
  | b :: rest => (if 65 ≤ b ∧ b ≤ 90 then b + 32 else b) :: toLower rest
  | [] => []

def lookupCommand (name : Bytes) : Option Cmd :=
  allCommands.find? fun cmd => decide (cmd.name = toUpper name)

def categories : List (Bytes × List Cmd) :=
  [(ascii "login", [.auth, .ping, .command]),
    (ascii "read", [.get, .info]),
    (ascii "write", [.set, .del]),
    (ascii "readwrite", [.get, .set, .del, .ping, .command, .info, .auth]),
    (ascii "operator", [.get, .set, .del, .ping, .command, .info, .auth, .flush]),
    (ascii "maintenance", [.flush, .shutdown, .config, .debug, .monitor]),
    (ascii "admin", [.auth, .role, .acl, .user, .grant, .revoke]),
    (ascii "all", allCommands),
    (ascii "none", [])]

def category (name : Bytes) : Option (List Cmd) := categories.lookup name

/-- Command ids as bits: word id / 64, offset id % 64. -/
abbrev Bitset := List UInt64

namespace Bitset

def bit (id : UInt16) : UInt64 := 1 <<< (id % 64).toUInt64

def word (id : UInt16) : Nat := (id / 64).toNat

def set (b : Bitset) (id : UInt16) : Bitset :=
  let grown := if b.length ≤ word id then b ++ List.replicate (word id - b.length + 1) 0 else b
  grown.modify (word id) (· ||| bit id)

def has (b : Bitset) (id : UInt16) : Bool :=
  match b[word id]? with
  | none => false
  | some w => decide (w &&& bit id ≠ 0)

def clear (b : Bitset) (id : UInt16) : Bitset := b.modify (word id) (· &&& ~~~(bit id))

def maxCommand (commands : List UInt16) : UInt16 := commands.foldl max 0

def new (commands : List UInt16) : Bitset :=
  commands.foldl set (List.replicate (word (maxCommand commands) + 1) 0)

end Bitset

/-- A role object. `address` tells two objects apart that were built from equal rules. -/
structure Role where
  address : Nat
  name : Bytes
  permissions : Bitset
  namespaces : List Bytes
  deriving DecidableEq, Repr

namespace Role

def allowsKey (r : Role) (key : Bytes) : Bool :=
  r.namespaces.any (fun start => start.isPrefixOf key) || decide (r.namespaces.length = 0)

def grants (r : Role) (cmd : Cmd) : Bool := r.permissions.has cmd.id

end Role

/-- What building a policy, or changing one, is refused for. -/
inductive Error where
  | noRules (role : Bytes)
  | unknownCategory (name : Bytes)
  | unknownCommand (name role : Bytes)
  | malformedRule (rule role : Bytes)
  | roleWithoutName
  | duplicateRole (name : Bytes)
  | userWithoutName
  | duplicateUser (name : Bytes)
  | userUnknownRole (user role : Bytes)
  | passwordAndNopass (user : Bytes)
  | noPassword (user : Bytes)
  | notBcrypt (user : Bytes)
  | undefinedDefault (role : Bytes)
  | ruleWithoutClaim
  | ruleWithoutMatch (claim : Bytes)
  | ruleWithoutRole (claim : Bytes)
  | ruleUnknownRole (role : Bytes)
  | middleWildcard (pattern : Bytes)
  | roleExists (name : Bytes)
  | unknownRole (name : Bytes)
  | lastAdmin (user : Bytes)
  | roleMissing (name : Bytes)
  deriving DecidableEq, Repr

def categoryIDs (name : Bytes) : Except Error (List Cmd) :=
  match category (toLower name) with
  | none => .error (.unknownCategory name)
  | some ids => .ok ids

def trimStar (s : Bytes) : Bytes := if s.getLast? = some 42 then s.dropLast else s

/-- What the rules read so far amount to. -/
structure Draft where
  perms : Bitset
  denies : List Cmd
  namespaces : List Bytes

/-- One rule: a grant or denial of a category or a command, or a key pattern. -/
def parseRule (name : Bytes) (d : Draft) (rule : Bytes) : Except Error Draft :=
  if (ascii "+@").isPrefixOf rule then
    (categoryIDs (rule.drop 2)).map fun ids =>
      { d with perms := ids.foldl (fun perms cmd => perms.set cmd.id) d.perms }
  else if (ascii "-@").isPrefixOf rule then
    (categoryIDs (rule.drop 2)).map fun ids => { d with denies := d.denies ++ ids }
  else if (ascii "+").isPrefixOf rule then
    match lookupCommand (rule.drop 1) with
    | none => .error (.unknownCommand (rule.drop 1) name)
    | some cmd => .ok { d with perms := d.perms.set cmd.id }
  else if (ascii "-").isPrefixOf rule then
    match lookupCommand (rule.drop 1) with
    | none => .error (.unknownCommand (rule.drop 1) name)
    | some cmd => .ok { d with denies := d.denies ++ [cmd] }
  else if (ascii "~").isPrefixOf rule then
    if rule = ascii "~*" then .ok d
    else if trimStar (rule.drop 1) = [] then .error (.malformedRule rule name)
    else .ok { d with namespaces := d.namespaces ++ [trimStar (rule.drop 1)] }
  else .error (.malformedRule rule name)

def parseRole (address : Nat) (name : Bytes) (rules : List Bytes) : Except Error Role :=
  if rules.length = 0 then .error (.noRules name)
  else
    (rules.foldlM (parseRule name) ⟨Bitset.new [], [], []⟩).map fun d =>
      { address := address
        name := name
        permissions := d.denies.foldl (fun perms cmd => perms.clear cmd.id) d.perms
        namespaces := d.namespaces }

theorem parseRole_name {address : Nat} {name : Bytes} {rules : List Bytes} {role : Role}
    (parsed : parseRole address name rules = .ok role) :
    role.name = name ∧ role.address = address := by
  unfold parseRole at parsed
  split at parsed
  · cases parsed
  · cases drafted : rules.foldlM (parseRule name) ⟨Bitset.new [], [], []⟩ with
    | error err => simp [drafted, Except.map] at parsed
    | ok d =>
      simp only [drafted, Except.map, Except.ok.injEq] at parsed
      rw [← parsed]
      exact ⟨rfl, rfl⟩

end Tellstone.Rbac
