import Tellstone.Rbac.Config

/-! The calls that change the policy in force. Each one works on a copy and publishes
it, or returns an error and publishes nothing. -/
namespace Tellstone.Rbac
open ByteStream

namespace PolicyStore

def isAdmin (p : PolicyStore) (username : Bytes) : Bool :=
  (p.roleFor username).any fun r => r.grants .acl

def hasOtherAdmin (p : PolicyStore) (username : Bytes) : Bool :=
  p.users.keys.any fun name => decide (name ≠ username) && p.isAdmin name

end PolicyStore

namespace Store

def current (s : Store) : PolicyStore := s.active.getD .empty

def publish (s : Store) (p : PolicyStore) : Store := { s with active := some p }

def createRole (s : Store) (name : Bytes) (rules : List Bytes) : Store × Option Error :=
  match parseRole s.allocated name rules with
  | .error err => (s, some err)
  | .ok role =>
    let s := { s with allocated := s.allocated + 1 }
    if (s.current.roles.lookup name).isSome then (s, some (.roleExists name))
    else (s.publish { s.current with roles := s.current.roles.insert name role }, none)

def setUser (s : Store) (username roleName passHash : Bytes) : Store × Option Error :=
  if s.current.roles.lookup roleName = none then (s, some (.unknownRole roleName))
  else
    (s.publish { s.current with users := s.current.users.insert username ⟨roleName, passHash⟩ },
      none)

def delUser (s : Store) (username : Bytes) : Store × Option Error :=
  match s.active with
  | none => (s, none)
  | some p =>
    if p.users.lookup username = none then (s, none)
    else if p.isAdmin username && !p.hasOtherAdmin username then (s, some (.lastAdmin username))
    else (s.publish { p with users := p.users.erase username }, none)

def deleteRole (s : Store) (name : Bytes) : Store × Option Error :=
  match s.active with
  | none => (s, some (.roleMissing name))
  | some p =>
    match p.roles.lookup name with
    | none => (s, some (.roleMissing name))
    | some role =>
      (s.publish
        { p with
          default := if p.default = some role then none else p.default
          roles := p.roles.erase name }, none)

def reload (cost : Bytes → Bool) (s : Store) (fc : FileConfig) : Store × Option Error :=
  match fc.build cost s.allocated with
  | .error err => (s, some err)
  | .ok (next, p) => ({ s with allocated := next }.publish p, none)

end Store

inductive Change where
  | createRole (name : Bytes) (rules : List Bytes)
  | setUser (username roleName passHash : Bytes)
  | delUser (username : Bytes)
  | deleteRole (name : Bytes)
  | reload (fc : FileConfig)

namespace Store

def change (cost : Bytes → Bool) (s : Store) : Change → Store × Option Error
  | .createRole name rules => s.createRole name rules
  | .setUser username roleName passHash => s.setUser username roleName passHash
  | .delUser username => s.delUser username
  | .deleteRole name => s.deleteRole name
  | .reload fc => s.reload cost fc

def changeAll (cost : Bytes → Bool) (s : Store) (changes : List Change) : Store :=
  changes.foldl (fun s c => (s.change cost c).1) s

end Store

/-- What a change does to the policy in force: nothing, or its own edit. -/
inductive Effect (cost : Bytes → Bool) (s s' : Store) : Change → Prop where
  | kept (c : Change) (same : s'.current = s.current) (grown : s.allocated ≤ s'.allocated) :
      Effect cost s s' c
  | created {name : Bytes} {rules : List Bytes} (role : Role)
      (parsed : parseRole s.allocated name rules = .ok role)
      (absent : s.current.roles.lookup name = none)
      (edit : s'.current = { s.current with roles := s.current.roles.insert name role })
      (next : s'.allocated = s.allocated + 1) : Effect cost s s' (.createRole name rules)
  | userSet {username roleName passHash : Bytes} (role : Role)
      (defined : s.current.roles.lookup roleName = some role)
      (edit : s'.current =
        { s.current with users := s.current.users.insert username ⟨roleName, passHash⟩ })
      (next : s'.allocated = s.allocated) : Effect cost s s' (.setUser username roleName passHash)
  | userDeleted {username : Bytes}
      (guarded : s.current.isAdmin username = true → s.current.hasOtherAdmin username = true)
      (edit : s'.current = { s.current with users := s.current.users.erase username })
      (next : s'.allocated = s.allocated) : Effect cost s s' (.delUser username)
  | roleDeleted {name : Bytes} (role : Role) (defined : s.current.roles.lookup name = some role)
      (edit : s'.current =
        { s.current with
          default := if s.current.default = some role then none else s.current.default
          roles := s.current.roles.erase name })
      (next : s'.allocated = s.allocated) : Effect cost s s' (.deleteRole name)
  | reloaded {fc : FileConfig} (built : fc.build cost s.allocated = .ok (s'.allocated, s'.current)) :
      Effect cost s s' (.reload fc)

namespace Store

section
variable {cost : Bytes → Bool} {s : Store}

theorem createRole_effect (name : Bytes) (rules : List Bytes) :
    Effect cost s (s.createRole name rules).1 (.createRole name rules) := by
  unfold createRole
  cases parsed : parseRole s.allocated name rules with
  | error err => exact .kept _ rfl (Nat.le_refl _)
  | ok role =>
    simp only
    split
    · exact .kept _ rfl (Nat.le_succ _)
    · rename_i fresh
      exact .created role parsed (by simpa [Store.current] using fresh) rfl rfl

theorem setUser_effect (username roleName passHash : Bytes) :
    Effect cost s (s.setUser username roleName passHash).1 (.setUser username roleName passHash) := by
  unfold setUser
  cases defined : s.current.roles.lookup roleName with
  | none => exact .kept _ rfl (Nat.le_refl _)
  | some role => exact .userSet role defined rfl rfl

theorem delUser_effect (username : Bytes) :
    Effect cost s (s.delUser username).1 (.delUser username) := by
  unfold delUser
  cases active : s.active with
  | none => exact .kept _ rfl (Nat.le_refl _)
  | some p =>
    have current : s.current = p := by simp [Store.current, active]
    simp only
    split
    · exact .kept _ rfl (Nat.le_refl _)
    · split
      · exact .kept _ rfl (Nat.le_refl _)
      · rename_i allowed
        refine .userDeleted ?_ (by rw [current]; rfl) rfl
        rw [current]
        intro admin
        simpa [admin] using allowed

theorem deleteRole_defined {name : Bytes} {role : Role}
    (defined : s.current.roles.lookup name = some role) :
    (s.deleteRole name).1.current =
        { s.current with
          default := if s.current.default = some role then none else s.current.default
          roles := s.current.roles.erase name } ∧
      (s.deleteRole name).1.allocated = s.allocated ∧ (s.deleteRole name).2 = none := by
  cases active : s.active with
  | none => simp [Store.current, active, PolicyStore.empty] at defined
  | some p =>
    have current : s.current = p := by simp [Store.current, active]
    rw [current] at defined ⊢
    simp only [deleteRole, active, defined]
    exact ⟨rfl, rfl, trivial⟩

theorem deleteRole_undefined {name : Bytes} (undefined : s.current.roles.lookup name = none) :
    (s.deleteRole name).1 = s := by
  unfold deleteRole
  cases active : s.active with
  | none => rfl
  | some p =>
    have current : s.current = p := by simp [Store.current, active]
    rw [current] at undefined
    simp only [undefined]

theorem deleteRole_effect (name : Bytes) :
    Effect cost s (s.deleteRole name).1 (.deleteRole name) := by
  cases defined : s.current.roles.lookup name with
  | none =>
    rw [deleteRole_undefined defined]
    exact .kept _ rfl (Nat.le_refl _)
  | some role =>
    obtain ⟨edit, next, -⟩ := deleteRole_defined defined
    exact .roleDeleted role defined edit next

theorem reload_effect (fc : FileConfig) : Effect cost s (s.reload cost fc).1 (.reload fc) := by
  unfold reload
  cases built : fc.build cost s.allocated with
  | error err => exact .kept _ rfl (Nat.le_refl _)
  | ok result => exact .reloaded built

theorem change_effect (cost : Bytes → Bool) (s : Store) (c : Change) :
    Effect cost s (s.change cost c).1 c := by
  cases c with
  | createRole name rules => exact createRole_effect name rules
  | setUser username roleName passHash => exact setUser_effect username roleName passHash
  | delUser username => exact delUser_effect username
  | deleteRole name => exact deleteRole_effect name
  | reload fc => exact reload_effect fc

end

end Store

end Tellstone.Rbac
