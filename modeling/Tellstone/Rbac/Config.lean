import Tellstone.Rbac.Policy

/-! Building a policy from a policy file that has been read into its fields. -/
namespace Tellstone.Rbac
open ByteStream

structure RoleEntry where
  name : Bytes
  rules : List Bytes

structure UserEntry where
  name : Bytes
  password : Bytes
  role : Bytes
  nopass : Bool

structure RuleEntry where
  claim : Bytes
  pattern : Bytes
  role : Bytes

structure FileConfig where
  roles : List RoleEntry
  users : List UserEntry
  defaultRole : Bytes
  oauthRules : List RuleEntry

def isBcryptHash (cost : Bytes → Bool) (h : Bytes) : Bool := decide (59 ≤ h.length) && cost h

def addRole (built : Nat × PolicyStore) (r : RoleEntry) : Except Error (Nat × PolicyStore) :=
  if r.name = [] then .error .roleWithoutName
  else if (built.2.roles.lookup r.name).isSome then .error (.duplicateRole r.name)
  else
    (parseRole built.1 r.name r.rules).map fun role =>
      (built.1 + 1, { built.2 with roles := built.2.roles.insert r.name role })

def addUser (cost : Bytes → Bool) (p : PolicyStore) (u : UserEntry) : Except Error PolicyStore :=
  if u.name = [] then .error .userWithoutName
  else if (p.users.lookup u.name).isSome then .error (.duplicateUser u.name)
  else if u.role ≠ [] ∧ p.roles.lookup u.role = none then .error (.userUnknownRole u.name u.role)
  else if u.nopass ∧ u.password ≠ [] then .error (.passwordAndNopass u.name)
  else if u.nopass then .ok { p with users := p.users.insert u.name ⟨u.role, []⟩ }
  else if u.password = [] then .error (.noPassword u.name)
  else if isBcryptHash cost u.password = false then .error (.notBcrypt u.name)
  else .ok { p with users := p.users.insert u.name ⟨u.role, u.password⟩ }

def setDefault (p : PolicyStore) (name : Bytes) : Except Error PolicyStore :=
  if name = [] then .ok p
  else
    match p.roles.lookup name with
    | none => .error (.undefinedDefault name)
    | some r => .ok { p with default := some r }

def addRule (p : PolicyStore) (r : RuleEntry) : Except Error PolicyStore :=
  if r.claim = [] then .error .ruleWithoutClaim
  else if r.pattern = [] then .error (.ruleWithoutMatch r.claim)
  else if r.role = [] then .error (.ruleWithoutRole r.claim)
  else
    match p.roles.lookup r.role with
    | none => .error (.ruleUnknownRole r.role)
    | some role =>
      (parseMatch r.pattern).map fun (exact, leading, trailing) =>
        { p with oauthRules := p.oauthRules ++ [⟨r.claim, exact, leading, trailing, role⟩] }

def FileConfig.build (cost : Bytes → Bool) (allocated : Nat) (fc : FileConfig) :
    Except Error (Nat × PolicyStore) := do
  let (next, p) ← fc.roles.foldlM addRole (allocated, PolicyStore.empty)
  let p ← fc.users.foldlM (addUser cost) p
  let p ← setDefault p fc.defaultRole
  let p ← fc.oauthRules.foldlM addRule p
  return (next, p)

theorem addRole_ok {built built' : Nat × PolicyStore} {r : RoleEntry}
    (added : addRole built r = .ok built') :
    ∃ role : Role, role.name = r.name ∧ role.address = built.1 ∧
      built.2.roles.lookup r.name = none ∧
      built' = (built.1 + 1, { built.2 with roles := built.2.roles.insert r.name role }) := by
  unfold addRole at added
  split at added
  · cases added
  split at added
  · cases added
  · rename_i fresh
    cases parsed : parseRole built.1 r.name r.rules with
    | error err => simp [parsed, Except.map] at added
    | ok role =>
      simp only [parsed, Except.map, Except.ok.injEq] at added
      obtain ⟨name, address⟩ := parseRole_name parsed
      exact ⟨role, name, address, by simpa using fresh, added.symm⟩

theorem addUser_ok {cost : Bytes → Bool} {p p' : PolicyStore} {u : UserEntry}
    (added : addUser cost p u = .ok p') :
    ∃ user, p' = { p with users := p.users.insert u.name user } := by
  unfold addUser at added
  split at added
  · cases added
  split at added
  · cases added
  split at added
  · cases added
  split at added
  · cases added
  split at added
  · exact ⟨_, (Except.ok.inj added).symm⟩
  split at added
  · cases added
  split at added
  · cases added
  · exact ⟨_, (Except.ok.inj added).symm⟩

theorem setDefault_ok {p p' : PolicyStore} {name : Bytes} (chosen : setDefault p name = .ok p') :
    p' = p ∨ ∃ r, p.roles.lookup name = some r ∧ p' = { p with default := some r } := by
  unfold setDefault at chosen
  split at chosen
  · exact Or.inl (Except.ok.inj chosen).symm
  · split at chosen
    · cases chosen
    · rename_i r found
      exact Or.inr ⟨r, found, (Except.ok.inj chosen).symm⟩

theorem addRule_ok {p p' : PolicyStore} {r : RuleEntry} (added : addRule p r = .ok p') :
    ∃ rule : OAuthRule, p.roles.lookup r.role = some rule.role ∧
      p' = { p with oauthRules := p.oauthRules ++ [rule] } := by
  unfold addRule at added
  split at added
  · cases added
  split at added
  · cases added
  split at added
  · cases added
  split at added
  · cases added
  · rename_i role found
    cases parsed : parseMatch r.pattern with
    | error err => simp [parsed, Except.map] at added
    | ok parts =>
      simp only [parsed, Except.map, Except.ok.injEq] at added
      exact ⟨_, found, added.symm⟩

end Tellstone.Rbac
