import Mathlib.Data.List.AList
import Tellstone.Rbac.Role

/-! A policy snapshot, the sessions pinned from it, and the store that publishes it. -/
namespace Tellstone.Rbac
open ByteStream

theorem lookup_insert_cases {α : Type} [DecidableEq α] {β : Type} {m : AList (fun _ : α => β)}
    {k n : α} {v r : β} (found : (m.insert k v).lookup n = some r) :
    n = k ∧ r = v ∨ n ≠ k ∧ m.lookup n = some r := by
  by_cases same : n = k
  · subst same
    rw [AList.lookup_insert] at found
    exact Or.inl ⟨rfl, (Option.some.inj found).symm⟩
  · rw [AList.lookup_insert_ne same] at found
    exact Or.inr ⟨same, found⟩

theorem lookup_erase_some {α : Type} [DecidableEq α] {β : Type} {m : AList (fun _ : α => β)}
    {k n : α} {r : β} (found : (m.erase k).lookup n = some r) :
    n ≠ k ∧ m.lookup n = some r := by
  by_cases same : n = k
  · subst same
    rw [AList.lookup_erase] at found
    cases found
  · rw [AList.lookup_erase_ne same] at found
    exact ⟨same, found⟩

/-- An empty hash marks a user without password. -/
structure User where
  role : Bytes
  passwordHash : Bytes
  deriving DecidableEq, Repr

/-- A compiled claim-to-role rule. A bare star leaves all three patterns empty. -/
structure OAuthRule where
  claim : Bytes
  exact : Bytes
  leading : Bytes
  trailing : Bytes
  role : Role
  deriving DecidableEq, Repr

abbrev Claims := AList (fun _ : Bytes => List Bytes)

def parseMatch (pattern : Bytes) : Except Error (Bytes × Bytes × Bytes) :=
  if pattern.count 42 = 0 then .ok (pattern, [], [])
  else if pattern.head? = some 42 then .ok ([], [], pattern.drop 1)
  else if pattern.getLast? = some 42 then .ok ([], trimStar pattern, [])
  else .error (.middleWildcard pattern)

def OAuthRule.matchesValues (r : OAuthRule) (values : List Bytes) : Bool :=
  values.any fun v =>
    decide (r.exact ≠ [] ∧ v = r.exact) ||
    (decide (r.leading ≠ []) && r.leading.isPrefixOf v) ||
    (decide (r.trailing ≠ []) && r.trailing.isSuffixOf v) ||
    decide (r.exact = [] ∧ r.leading = [] ∧ r.trailing = [])

/-- A role carries its address, so that equal values are the same object. -/
structure PolicyStore where
  roles : AList (fun _ : Bytes => Role)
  users : AList (fun _ : Bytes => User)
  default : Option Role
  oauthRules : List OAuthRule

namespace PolicyStore

def empty : PolicyStore := ⟨∅, ∅, none, []⟩

def roleFor (p : PolicyStore) (username : Bytes) : Option Role :=
  match (p.users.lookup username).bind fun u => p.roles.lookup u.role with
  | some r => some r
  | none => p.default

def userFor (p : PolicyStore) (username : Bytes) : Option User := p.users.lookup username

def roleForClaims (p : PolicyStore) (claims : Claims) : Option Role :=
  (p.oauthRules.find? fun r => (claims.lookup r.claim).any r.matchesValues).map OAuthRule.role

def noPassDefault (p : PolicyStore) : Bool :=
  (p.users.lookup (ascii "default")).any fun u => decide (u.passwordHash.length = 0)

end PolicyStore

/-- What a connection is pinned to. A session without role denies everything. -/
structure SessionContext where
  role : Option Role
  roleName : Bytes
  username : Bytes
  deriving DecidableEq, Repr

namespace SessionContext

def new (username : Bytes) (role : Option Role) : SessionContext :=
  ⟨role, (role.map Role.name).getD [], username⟩

def allowsCommand (s : SessionContext) (cmd : Cmd) : Bool := s.role.any fun r => r.grants cmd

def isAllowed (s : SessionContext) (cmd : Cmd) (key : Bytes) : Bool :=
  s.allowsCommand cmd && s.role.any fun r => r.allowsKey key

end SessionContext

structure AuthLogEntry where
  timestamp : Nat
  username : Bytes
  remoteAddr : Bytes
  reason : Bytes
  deriving DecidableEq, Repr

def defaultAuthLogCap : Nat := 100

/-- `allocated` is the address of the next role object; `commands` counts by role object. -/
structure Store where
  active : Option PolicyStore
  allocated : Nat
  authFailures : Nat
  deniedCommands : Nat
  log : List AuthLogEntry
  logHead : Nat
  logLen : Nat
  commands : Nat → Nat

namespace Store

def new (policy : Option PolicyStore) (allocated : Nat) : Store :=
  ⟨policy, allocated, 0, 0, [], 0, 0, fun _ => 0⟩

def appendLocked (s : Store) (entry : AuthLogEntry) : Store :=
  let log := if s.log = [] then List.replicate defaultAuthLogCap ⟨0, [], [], []⟩ else s.log
  { s with
    log := log.set s.logHead entry
    logHead := (s.logHead + 1) % log.length
    logLen := if s.logLen < log.length then s.logLen + 1 else s.logLen }

def logAuthFailure (now : Nat) (s : Store) (username remoteAddr reason : Bytes) : Store :=
  { s with authFailures := s.authFailures + 1 }.appendLocked ⟨now, username, remoteAddr, reason⟩

def logDenied (now : Nat) (s : Store) (username remoteAddr cmd key : Bytes) : Store :=
  s.appendLocked
    ⟨now, username, remoteAddr, ascii "NOPERM command=" ++ cmd ++ ascii " key=" ++ key⟩

def incDenied (s : Store) : Store := { s with deniedCommands := s.deniedCommands + 1 }

def countCommand (s : Store) (session : SessionContext) : Store :=
  match session.role with
  | none => s
  | some r =>
    { s with commands := fun a => if a = r.address then s.commands a + 1 else s.commands a }

/-- The session of a verified token and its subject; `claims` is what verification gave. -/
def resolveOAuthToken (s : Store) (claims : Option Claims) : Option (SessionContext × Bytes) :=
  match claims, s.active with
  | some claims, some p =>
    match p.roleForClaims claims with
    | none => none
    | some role =>
      let subject :=
        match claims.lookup (ascii "sub") with
        | some (sub :: _) => if sub = [] then ascii "default" else sub
        | _ => ascii "default"
      some (SessionContext.new subject (some role), subject)
  | _, _ => none

end Store

end Tellstone.Rbac
