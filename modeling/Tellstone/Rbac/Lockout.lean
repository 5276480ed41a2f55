import Tellstone.Rbac.Manager

/-! Losing the last user who may manage access. Deleting a user is guarded against it;
the other changes are not. -/
namespace Tellstone.Rbac
open ByteStream

def Role.manages (r : Option Role) : Bool := r.any fun r => r.grants .acl

namespace PolicyStore

def hasAdmin (p : PolicyStore) : Bool := p.users.keys.any p.isAdmin

def effective (p : PolicyStore) (user : User) : Option Role :=
  (p.roles.lookup user.role).or p.default

def adminBeside (p : PolicyStore) (name : Bytes) : Bool :=
  p.users.entries.any fun entry =>
    decide (entry.2.role ≠ name) && Role.manages (p.effective entry.2)

def ownAdminBeside (p : PolicyStore) (name : Bytes) : Bool :=
  p.users.entries.any fun entry =>
    decide (entry.2.role ≠ name) && Role.manages (p.roles.lookup entry.2.role)

/-- The change is refused, or leaves an administrator: an untouched one, or one it makes. -/
def keepsAdmin (p : PolicyStore) : Change → Bool
  | .createRole name rules =>
    (p.roles.lookup name).isSome || p.adminBeside name ||
      match parseRole 0 name rules with
      | .error _ => true
      | .ok role => role.grants .acl
  | .setUser username roleName _ =>
    p.hasOtherAdmin username || (p.roles.lookup roleName).all fun r => r.grants .acl
  | .delUser _ => true
  | .deleteRole name =>
    (p.roles.lookup name).all fun role =>
      p.ownAdminBeside name || p.default.any fun d => decide (d ≠ role) && d.grants .acl
  | .reload _ => true

section
variable {p : PolicyStore}

theorem any_user_iff (f : Bytes → User → Bool) :
    (p.users.entries.any fun entry => f entry.1 entry.2) = true ↔
      ∃ u user, p.users.lookup u = some user ∧ f u user = true := by
  rw [List.any_eq_true]
  constructor
  · rintro ⟨⟨u, user⟩, mem, holds⟩
    exact ⟨u, user, AList.mem_lookup_iff.mpr mem, holds⟩
  · rintro ⟨u, user, found, holds⟩
    exact ⟨⟨u, user⟩, AList.mem_lookup_iff.mp found, holds⟩

theorem isAdmin_user {u : Bytes} {user : User} (found : p.users.lookup u = some user) :
    p.isAdmin u = Role.manages (p.effective user) := by
  unfold isAdmin roleFor effective
  rw [found, Option.bind_some]
  cases p.roles.lookup user.role <;> rfl

theorem hasAdmin_iff : p.hasAdmin = true ↔
    ∃ u user, p.users.lookup u = some user ∧ Role.manages (p.effective user) = true := by
  rw [hasAdmin, AList.keys, List.keys, List.any_map]
  refine (any_user_iff fun u _ => p.isAdmin u).trans ?_
  constructor
  · rintro ⟨u, user, found, admin⟩
    exact ⟨u, user, found, isAdmin_user found ▸ admin⟩
  · rintro ⟨u, user, found, admin⟩
    exact ⟨u, user, found, (isAdmin_user found).symm ▸ admin⟩

theorem hasOtherAdmin_iff {username : Bytes} : p.hasOtherAdmin username = true ↔
    ∃ u user, p.users.lookup u = some user ∧ u ≠ username ∧
      Role.manages (p.effective user) = true := by
  rw [hasOtherAdmin, AList.keys, List.keys, List.any_map]
  refine (any_user_iff fun u _ => decide (u ≠ username) && p.isAdmin u).trans ?_
  simp only [Bool.and_eq_true, decide_eq_true_eq]
  constructor
  · rintro ⟨u, user, found, other, admin⟩
    exact ⟨u, user, found, other, isAdmin_user found ▸ admin⟩
  · rintro ⟨u, user, found, other, admin⟩
    exact ⟨u, user, found, other, (isAdmin_user found).symm ▸ admin⟩

theorem adminBeside_iff {name : Bytes} : p.adminBeside name = true ↔
    ∃ u user, p.users.lookup u = some user ∧ user.role ≠ name ∧
      Role.manages (p.effective user) = true := by
  refine (any_user_iff fun _ user => decide (user.role ≠ name) &&
    Role.manages (p.effective user)).trans ?_
  simp only [Bool.and_eq_true, decide_eq_true_eq]

theorem ownAdminBeside_iff {name : Bytes} : p.ownAdminBeside name = true ↔
    ∃ u user, p.users.lookup u = some user ∧ user.role ≠ name ∧
      Role.manages (p.roles.lookup user.role) = true := by
  refine (any_user_iff fun _ user => decide (user.role ≠ name) &&
    Role.manages (p.roles.lookup user.role)).trans ?_
  simp only [Bool.and_eq_true, decide_eq_true_eq]

theorem insertRole_hasAdmin (admin : p.hasAdmin = true) {name : Bytes} (role : Role) :
    hasAdmin { p with roles := p.roles.insert name role } =
      (p.adminBeside name || role.grants .acl) := by
  have other (user : User) (beside : user.role ≠ name) :
      effective { p with roles := p.roles.insert name role } user = p.effective user := by
    simp only [effective, AList.lookup_insert_ne beside]
  have same (user : User) (named : user.role = name) :
      effective { p with roles := p.roles.insert name role } user = some role := by
    subst named
    simp only [effective, AList.lookup_insert, Option.some_or]
  rw [Bool.eq_iff_iff, Bool.or_eq_true, hasAdmin_iff, adminBeside_iff]
  constructor
  · rintro ⟨u, user, found, manages⟩
    by_cases named : user.role = name
    · rw [same user named] at manages
      exact Or.inr manages
    · rw [other user named] at manages
      exact Or.inl ⟨u, user, found, named, manages⟩
  · rintro (⟨u, user, found, beside, manages⟩ | grants)
    · exact ⟨u, user, found, (other user beside).symm ▸ manages⟩
    · obtain ⟨u, user, found, manages⟩ := hasAdmin_iff.mp admin
      by_cases named : user.role = name
      · exact ⟨u, user, found, (same user named).symm ▸ grants⟩
      · exact ⟨u, user, found, (other user named).symm ▸ manages⟩

theorem insertUser_hasAdmin {username : Bytes} {user : User} {role : Role}
    (defined : p.roles.lookup user.role = some role) :
    hasAdmin { p with users := p.users.insert username user } =
      (p.hasOtherAdmin username || role.grants .acl) := by
  have new : Role.manages (p.effective user) = role.grants .acl := by
    simp only [effective, defined, Option.some_or, Role.manages, Option.any_some]
  rw [Bool.eq_iff_iff, Bool.or_eq_true, hasAdmin_iff, hasOtherAdmin_iff]
  constructor
  · rintro ⟨u, user', found, manages⟩
    rcases lookup_insert_cases found with ⟨rfl, rfl⟩ | ⟨other, old⟩
    · exact Or.inr (new ▸ manages)
    · exact Or.inl ⟨u, user', old, other, manages⟩
  · rintro (⟨u, user', found, other, manages⟩ | grants)
    · exact ⟨u, user', (AList.lookup_insert_ne other).trans found, manages⟩
    · exact ⟨username, user, AList.lookup_insert _, new.symm ▸ grants⟩

theorem eraseUser_hasAdmin {username : Bytes} :
    hasAdmin { p with users := p.users.erase username } = p.hasOtherAdmin username := by
  rw [Bool.eq_iff_iff, hasAdmin_iff, hasOtherAdmin_iff]
  constructor
  · rintro ⟨u, user, found, manages⟩
    obtain ⟨other, old⟩ := lookup_erase_some found
    exact ⟨u, user, old, other, manages⟩
  · rintro ⟨u, user, found, other, manages⟩
    exact ⟨u, user, (AList.lookup_erase_ne other).trans found, manages⟩

theorem eraseRole_hasAdmin (admin : p.hasAdmin = true) {name : Bytes} {role : Role} :
    hasAdmin { p with
        default := if p.default = some role then none else p.default
        roles := p.roles.erase name } =
      (p.ownAdminBeside name || p.default.any fun d => decide (d ≠ role) && d.grants .acl) := by
  have fallback : Role.manages (if p.default = some role then none else p.default) =
      p.default.any fun d => decide (d ≠ role) && d.grants .acl := by
    cases p.default with
    | none => rfl
    | some d =>
      by_cases same : d = role
      · simp [Role.manages, same]
      · simp [Role.manages, same]
  rw [Bool.eq_iff_iff, Bool.or_eq_true, hasAdmin_iff, ownAdminBeside_iff, ← fallback]
  generalize dropped : (if p.default = some role then none else p.default) = default'
  have named (user : User) (same : user.role = name) :
      effective { p with default := default', roles := p.roles.erase name } user = default' := by
    subst same
    simp only [effective, AList.lookup_erase, Option.none_or]
  have other (user : User) (beside : user.role ≠ name) :
      effective { p with default := default', roles := p.roles.erase name } user =
        (p.roles.lookup user.role).or default' := by
    simp only [effective, AList.lookup_erase_ne beside]
  constructor
  · rintro ⟨u, user, found, manages⟩
    by_cases same : user.role = name
    · rw [named user same] at manages
      exact Or.inr manages
    · rw [other user same] at manages
      cases own : p.roles.lookup user.role with
      | none =>
        rw [own, Option.none_or] at manages
        exact Or.inr manages
      | some r =>
        rw [own, Option.some_or] at manages
        exact Or.inl ⟨u, user, found, same, own ▸ manages⟩
  · rintro (⟨u, user, found, beside, manages⟩ | manages)
    · refine ⟨u, user, found, ?_⟩
      rw [other user beside]
      cases own : p.roles.lookup user.role with
      | none => simp [own, Role.manages] at manages
      | some r => rwa [own] at manages
    · obtain ⟨u, user, found, before⟩ := hasAdmin_iff.mp admin
      refine ⟨u, user, found, ?_⟩
      by_cases same : user.role = name
      · rwa [named user same]
      · rw [other user same]
        rw [effective] at before
        cases own : p.roles.lookup user.role with
        | none => rwa [Option.none_or]
        | some r => rwa [own, Option.some_or] at before

end

end PolicyStore

theorem parseRole_grants (a b : Nat) (name : Bytes) (rules : List Bytes) (cmd : Cmd) :
    (parseRole a name rules).map (fun r => r.grants cmd) =
      (parseRole b name rules).map (fun r => r.grants cmd) := by
  unfold parseRole
  split
  · rfl
  · cases rules.foldlM (parseRule name) ⟨Bitset.new [], [], []⟩ <;> rfl

namespace Store

section
variable {cost : Bytes → Bool} {s : Store}

theorem createRole_hasAdmin (admin : s.current.hasAdmin = true) (name : Bytes)
    (rules : List Bytes) :
    (s.createRole name rules).1.current.hasAdmin =
      s.current.keepsAdmin (.createRole name rules) := by
  have grants := parseRole_grants s.allocated 0 name rules .acl
  simp only [PolicyStore.keepsAdmin]
  unfold createRole
  cases parsed : parseRole s.allocated name rules with
  | error err =>
    cases again : parseRole 0 name rules with
    | error err' => simpa using admin
    | ok role =>
      rw [parsed, again] at grants
      cases grants
  | ok role =>
    cases again : parseRole 0 name rules with
    | error err =>
      rw [parsed, again] at grants
      cases grants
    | ok role' =>
      rw [parsed, again] at grants
      have same : role.grants .acl = role'.grants .acl := Except.ok.inj grants
      simp only
      split
      · rename_i exists_
        have found : (s.current.roles.lookup name).isSome = true := exists_
        simp only [found, Bool.true_or]
        exact admin
      · rename_i fresh
        have absent : (s.current.roles.lookup name).isSome = false := by
          simpa [Store.current] using fresh
        rw [absent, Bool.false_or, ← same]
        exact PolicyStore.insertRole_hasAdmin admin role

theorem setUser_hasAdmin (admin : s.current.hasAdmin = true) (username roleName passHash : Bytes) :
    (s.setUser username roleName passHash).1.current.hasAdmin =
      s.current.keepsAdmin (.setUser username roleName passHash) := by
  simp only [PolicyStore.keepsAdmin]
  unfold setUser
  cases defined : s.current.roles.lookup roleName with
  | none => simpa using admin
  | some role =>
    simp only [reduceCtorEq, ↓reduceIte, Option.all_some]
    exact PolicyStore.insertUser_hasAdmin defined

theorem delUser_hasAdmin (admin : s.current.hasAdmin = true) (username : Bytes) :
    (s.delUser username).1.current.hasAdmin = true := by
  have effect := change_effect (fun _ => true) s (.delUser username)
  change Effect _ s (s.delUser username).1 _ at effect
  generalize (s.delUser username).1 = s' at effect ⊢
  cases effect with
  | kept _ same grown => exact same ▸ admin
  | userDeleted guarded edit next =>
    rw [edit, PolicyStore.eraseUser_hasAdmin]
    obtain ⟨u, user, found, manages⟩ := PolicyStore.hasAdmin_iff.mp admin
    by_cases last : u = username
    · apply guarded
      rw [← last, PolicyStore.isAdmin_user found]
      exact manages
    · exact PolicyStore.hasOtherAdmin_iff.mpr ⟨u, user, found, last, manages⟩

theorem deleteRole_hasAdmin (admin : s.current.hasAdmin = true) (name : Bytes) :
    (s.deleteRole name).1.current.hasAdmin = s.current.keepsAdmin (.deleteRole name) := by
  simp only [PolicyStore.keepsAdmin]
  cases defined : s.current.roles.lookup name with
  | none =>
    rw [deleteRole_undefined defined]
    exact admin
  | some role =>
    rw [(deleteRole_defined defined).1]
    exact PolicyStore.eraseRole_hasAdmin admin

theorem change_hasAdmin (admin : s.current.hasAdmin = true) (c : Change)
    (managed : ∀ fc, c ≠ .reload fc) :
    (s.change cost c).1.current.hasAdmin = s.current.keepsAdmin c := by
  cases c with
  | createRole name rules => exact createRole_hasAdmin admin name rules
  | setUser username roleName passHash => exact setUser_hasAdmin admin username roleName passHash
  | delUser username => exact delUser_hasAdmin admin username
  | deleteRole name => exact deleteRole_hasAdmin admin name
  | reload fc => exact absurd rfl (managed fc)

def keepsAdminAll (cost : Bytes → Bool) : Store → List Change → Bool
  | _, [] => true
  | s, c :: changes => s.current.keepsAdmin c && keepsAdminAll cost (s.change cost c).1 changes

end

end Store

/-- A policy keeps an administrator throughout a run exactly when each change leaves one untouched
or makes one. -/
theorem lockout_free_iff (cost : Bytes → Bool) (s : Store) (admin : s.current.hasAdmin = true)
    (changes : List Change) (managed : ∀ c ∈ changes, ∀ fc, c ≠ .reload fc) :
    (∀ before after, changes = before ++ after →
      (s.changeAll cost before).current.hasAdmin = true) ↔
      s.keepsAdminAll cost changes = true := by
  induction changes generalizing s with
  | nil =>
    refine ⟨fun _ => rfl, ?_⟩
    rintro _ before after nothing
    rw [(List.append_eq_nil_iff.mp nothing.symm).1]
    exact admin
  | cons c changes ih =>
    have step : (s.change cost c).1.current.hasAdmin = s.current.keepsAdmin c :=
      Store.change_hasAdmin admin c (managed c List.mem_cons_self)
    have later : ∀ c' ∈ changes, ∀ fc, c' ≠ .reload fc :=
      fun c' mem => managed c' (List.mem_cons_of_mem c mem)
    rw [Store.keepsAdminAll, Bool.and_eq_true, ← step]
    constructor
    · intro always
      have next := always [c] changes rfl
      refine ⟨next, (ih _ next later).mp ?_⟩
      rintro before after rfl
      exact always (c :: before) after rfl
    · rintro ⟨next, kept⟩ before after split
      cases before with
      | nil => exact admin
      | cons c' before =>
        obtain ⟨rfl, rfl⟩ := List.cons.inj split
        exact (ih _ next later).mpr kept before after rfl

def FileConfig.staff : FileConfig where
  roles := [⟨ascii "admin", [ascii "+@admin"]⟩, ⟨ascii "reader", [ascii "+@read"]⟩]
  users := [⟨ascii "root", [], ascii "admin", true⟩, ⟨ascii "deputy", [], ascii "admin", true⟩]
  defaultRole := ascii "reader"
  oauthRules := []

def Store.staff : Store := ((Store.new none 0).reload (fun _ => true) .staff).1

theorem lockout_free_deputy :
    let changes : List Change :=
      [.setUser (ascii "root") (ascii "reader") [], .delUser (ascii "deputy"),
        .createRole (ascii "auditor") [ascii "+ACL"], .deleteRole (ascii "reader")]
    Store.staff.current.hasAdmin = true ∧
      ∀ before after, changes = before ++ after →
        (Store.staff.changeAll (fun _ => true) before).current.hasAdmin = true :=
  ⟨by decide +kernel,
    (lockout_free_iff (fun _ => true) .staff (by decide +kernel) _ (by simp)).mpr
      (by decide +kernel)⟩

theorem last_admin_demoted :
    Store.staff.current.hasAdmin = true ∧
      (let first := Store.staff.setUser (ascii "root") (ascii "reader") []
      let second := first.1.setUser (ascii "deputy") (ascii "reader") []
      first.2 = none ∧ second.2 = none ∧ second.1.current.hasAdmin = false) ∧
      (Store.staff.deleteRole (ascii "admin")).2 = none ∧
      (Store.staff.deleteRole (ascii "admin")).1.current.hasAdmin = false := by
  decide +kernel

end Tellstone.Rbac
