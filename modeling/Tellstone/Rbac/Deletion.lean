import Tellstone.Rbac.Manager

/-! Which roles a login can obtain. A role is reached through a user record, through the
default, and through an OAuth rule; the last two keep the object itself. -/
namespace Tellstone.Rbac
open ByteStream

namespace PolicyStore

/-- Every reference leads to a role that is defined under its own name. -/
structure Closed (p : PolicyStore) : Prop where
  named : ∀ name r, p.roles.lookup name = some r → r.name = name
  fallback : ∀ r, p.default = some r → p.roles.lookup r.name = some r
  rules : ∀ rule ∈ p.oauthRules, p.roles.lookup rule.role.name = some rule.role

section
variable {p : PolicyStore}

theorem empty_closed : empty.Closed where
  named := by
    intro name r found
    simp [empty] at found
  fallback := by
    intro r found
    simp [empty] at found
  rules := by
    intro rule mem
    simp [empty] at mem

theorem Closed.roleFor (closed : p.Closed) {username : Bytes} {r : Role}
    (resolved : p.roleFor username = some r) : p.roles.lookup r.name = some r := by
  unfold PolicyStore.roleFor at resolved
  split at resolved
  · rename_i role found
    cases resolved
    obtain ⟨u, -, named⟩ := Option.bind_eq_some_iff.mp found
    rw [closed.named _ _ named]
    exact named
  · exact closed.fallback r resolved

theorem Closed.roleForClaims (closed : p.Closed) {claims : Claims} {r : Role}
    (resolved : p.roleForClaims claims = some r) : p.roles.lookup r.name = some r := by
  obtain ⟨rule, found, rfl⟩ := Option.map_eq_some_iff.mp resolved
  exact closed.rules rule (List.mem_of_find?_eq_some found)

theorem Closed.insertRole (closed : p.Closed) {role : Role}
    (absent : p.roles.lookup role.name = none) :
    Closed { p with roles := p.roles.insert role.name role } := by
  have other {r : Role} (found : p.roles.lookup r.name = some r) :
      (p.roles.insert role.name role).lookup r.name = some r := by
    by_cases same : r.name = role.name
    · rw [same, absent] at found
      cases found
    · rw [AList.lookup_insert_ne same]
      exact found
  constructor
  · intro name r found
    rcases lookup_insert_cases found with ⟨rfl, rfl⟩ | ⟨-, old⟩
    · rfl
    · exact closed.named name r old
  · intro r found
    exact other (closed.fallback r found)
  · intro rule mem
    exact other (closed.rules rule mem)

theorem Closed.setUsers (closed : p.Closed) (users : AList (fun _ : Bytes => User)) :
    Closed { p with users := users } :=
  ⟨closed.named, closed.fallback, closed.rules⟩

theorem Closed.eraseRole (closed : p.Closed) {name : Bytes} {role : Role}
    (found : p.roles.lookup name = some role)
    (unused : ∀ rule ∈ p.oauthRules, rule.role ≠ role) :
    Closed { p with
      default := if p.default = some role then none else p.default
      roles := p.roles.erase name } := by
  have other {r : Role} (defined : p.roles.lookup r.name = some r) (different : r ≠ role) :
      (p.roles.erase name).lookup r.name = some r := by
    have elsewhere : r.name ≠ name := by
      intro same
      rw [same, found] at defined
      exact different (Option.some.inj defined).symm
    rw [AList.lookup_erase_ne elsewhere]
    exact defined
  constructor
  · intro n r defined
    exact closed.named n r (lookup_erase_some defined).2
  · intro r kept
    by_cases gone : p.default = some role
    · simp only [if_pos gone] at kept
      cases kept
    · simp only [if_neg gone] at kept
      apply other (closed.fallback r kept)
      rintro rfl
      exact gone kept
  · intro rule mem
    exact other (closed.rules rule mem) (unused rule mem)

end

end PolicyStore

theorem bind_eq_ok {α β ε : Type} {x : Except ε α} {f : α → Except ε β} {b : β}
    (ok : (x >>= f) = .ok b) : ∃ a, x = .ok a ∧ f a = .ok b := by
  cases x with
  | error err => cases ok
  | ok a => exact ⟨a, rfl, ok⟩

theorem foldlM_keeps {α β ε : Type} {f : β → α → Except ε β} (Inv : β → Prop)
    (keeps : ∀ b a b', Inv b → f b a = .ok b' → Inv b') {as : List α} {b b' : β} (inv : Inv b)
    (folded : as.foldlM f b = .ok b') : Inv b' := by
  induction as generalizing b with
  | nil =>
    cases folded
    exact inv
  | cons a as ih =>
    obtain ⟨next, step, folded⟩ := bind_eq_ok folded
    exact ih (keeps b a next inv step) folded

theorem addRole_closed {built built' : Nat × PolicyStore} {r : RoleEntry}
    (closed : built.2.Closed) (added : addRole built r = .ok built') : built'.2.Closed := by
  obtain ⟨role, named, -, absent, rfl⟩ := addRole_ok added
  rw [← named] at absent ⊢
  exact closed.insertRole absent

theorem addUser_closed {cost : Bytes → Bool} {p p' : PolicyStore} {u : UserEntry}
    (closed : p.Closed) (added : addUser cost p u = .ok p') : p'.Closed := by
  obtain ⟨user, rfl⟩ := addUser_ok added
  exact closed.setUsers _

theorem setDefault_closed {p p' : PolicyStore} {name : Bytes} (closed : p.Closed)
    (chosen : setDefault p name = .ok p') : p'.Closed := by
  rcases setDefault_ok chosen with rfl | ⟨r, found, rfl⟩
  · exact closed
  · refine ⟨closed.named, ?_, closed.rules⟩
    rintro role ⟨⟩
    rw [closed.named name r found]
    exact found

theorem addRule_closed {p p' : PolicyStore} {r : RuleEntry} (closed : p.Closed)
    (added : addRule p r = .ok p') : p'.Closed := by
  obtain ⟨rule, found, rfl⟩ := addRule_ok added
  refine ⟨closed.named, closed.fallback, ?_⟩
  intro rule' mem
  rcases List.mem_append.mp mem with old | new
  · exact closed.rules rule' old
  · rw [List.mem_singleton.mp new]
    change p.roles.lookup rule.role.name = some rule.role
    rw [closed.named r.role rule.role found]
    exact found

theorem build_closed {cost : Bytes → Bool} {allocated next : Nat} {fc : FileConfig}
    {p : PolicyStore} (built : fc.build cost allocated = .ok (next, p)) : p.Closed := by
  obtain ⟨withRoles, roles, built⟩ := bind_eq_ok built
  obtain ⟨withUsers, users, built⟩ := bind_eq_ok built
  obtain ⟨withDefault, chosen, built⟩ := bind_eq_ok built
  obtain ⟨withRules, rules, built⟩ := bind_eq_ok built
  have first : withRoles.2.Closed :=
    foldlM_keeps (fun b => b.2.Closed) (fun _ _ _ => addRole_closed) PolicyStore.empty_closed roles
  have second := foldlM_keeps PolicyStore.Closed (fun _ _ _ => addUser_closed) first users
  have third := setDefault_closed second chosen
  have fourth := foldlM_keeps PolicyStore.Closed (fun _ _ _ => addRule_closed) third rules
  cases built
  exact fourth

/-- The defined roles are different objects, all allocated. -/
structure PolicyStore.Placed (allocated : Nat) (p : PolicyStore) : Prop where
  below : ∀ name r, p.roles.lookup name = some r → r.address < allocated
  distinct : ∀ name name' r r', p.roles.lookup name = some r → p.roles.lookup name' = some r' →
    r.address = r'.address → name = name'

namespace PolicyStore

section
variable {p : PolicyStore} {allocated : Nat}

theorem empty_placed : empty.Placed allocated where
  below := by
    intro name r found
    simp [empty] at found
  distinct := by
    intro name name' r r' found
    simp [empty] at found

theorem Placed.mono (placed : p.Placed allocated) {more : Nat} (le : allocated ≤ more) :
    p.Placed more where
  below := fun name r found => Nat.lt_of_lt_of_le (placed.below name r found) le
  distinct := placed.distinct

theorem Placed.insertRole (placed : p.Placed allocated) {name : Bytes} {role : Role}
    (new : role.address = allocated) :
    Placed (allocated + 1) { p with roles := p.roles.insert name role } := by
  constructor
  · intro n r found
    rcases lookup_insert_cases found with ⟨-, rfl⟩ | ⟨-, old⟩
    · omega
    · exact Nat.lt_succ_of_lt (placed.below n r old)
  · intro n n' r r' found found' same
    rcases lookup_insert_cases found with ⟨rfl, rfl⟩ | ⟨-, old⟩ <;>
      rcases lookup_insert_cases found' with ⟨rfl, rfl⟩ | ⟨-, old'⟩
    · rfl
    · have less := placed.below n' r' old'
      omega
    · have less := placed.below n r old
      omega
    · exact placed.distinct n n' r r' old old' same

theorem Placed.eraseRole (placed : p.Placed allocated) (name : Bytes) (default : Option Role) :
    Placed allocated { p with default := default, roles := p.roles.erase name } := by
  constructor
  · intro n r found
    exact placed.below n r (lookup_erase_some found).2
  · intro n n' r r' found found'
    exact placed.distinct n n' r r' (lookup_erase_some found).2 (lookup_erase_some found').2

end

end PolicyStore

theorem addRole_placed {built built' : Nat × PolicyStore} {r : RoleEntry} {start : Nat}
    (placed : built.2.Placed built.1 ∧ start ≤ built.1 ∧
      ∀ name role, built.2.roles.lookup name = some role → start ≤ role.address)
    (added : addRole built r = .ok built') :
    built'.2.Placed built'.1 ∧ start ≤ built'.1 ∧
      ∀ name role, built'.2.roles.lookup name = some role → start ≤ role.address := by
  obtain ⟨placed, low, above⟩ := placed
  obtain ⟨role, -, address, -, rfl⟩ := addRole_ok added
  refine ⟨placed.insertRole address, Nat.le_succ_of_le low, ?_⟩
  intro name role' found
  rcases lookup_insert_cases found with ⟨-, rfl⟩ | ⟨-, old⟩
  · omega
  · exact above name role' old

theorem addUser_roles {cost : Bytes → Bool} {p p' : PolicyStore} {u : UserEntry}
    (added : addUser cost p u = .ok p') : p'.roles = p.roles := by
  obtain ⟨user, rfl⟩ := addUser_ok added
  rfl

theorem setDefault_roles {p p' : PolicyStore} {name : Bytes}
    (chosen : setDefault p name = .ok p') : p'.roles = p.roles := by
  rcases setDefault_ok chosen with rfl | ⟨r, -, rfl⟩ <;> rfl

theorem addRule_roles {p p' : PolicyStore} {r : RuleEntry} (added : addRule p r = .ok p') :
    p'.roles = p.roles := by
  obtain ⟨rule, -, rfl⟩ := addRule_ok added
  rfl

theorem build_placed {cost : Bytes → Bool} {allocated next : Nat} {fc : FileConfig}
    {p : PolicyStore} (built : fc.build cost allocated = .ok (next, p)) :
    p.Placed next ∧ allocated ≤ next ∧
      ∀ name role, p.roles.lookup name = some role → allocated ≤ role.address := by
  obtain ⟨withRoles, roles, built⟩ := bind_eq_ok built
  obtain ⟨withUsers, users, built⟩ := bind_eq_ok built
  obtain ⟨withDefault, chosen, built⟩ := bind_eq_ok built
  obtain ⟨withRules, rules, built⟩ := bind_eq_ok built
  cases built
  have same : p.roles = withRoles.2.roles := by
    have first := foldlM_keeps (fun q => q.roles = withRoles.2.roles)
      (fun _ _ _ old added => (addUser_roles added).trans old) rfl users
    have second := (setDefault_roles chosen).trans first
    exact foldlM_keeps (fun q => q.roles = withRoles.2.roles)
      (fun _ _ _ old added => (addRule_roles added).trans old) second rules
  obtain ⟨placed, low, above⟩ := foldlM_keeps
    (fun b : Nat × PolicyStore => b.2.Placed b.1 ∧ allocated ≤ b.1 ∧
      ∀ name role, b.2.roles.lookup name = some role → allocated ≤ role.address)
    (fun _ _ _ => addRole_placed)
    ⟨PolicyStore.empty_placed, Nat.le_refl _, by simp [PolicyStore.empty]⟩ roles
  refine ⟨⟨?_, ?_⟩, low, ?_⟩
  · rw [same]
    exact placed.below
  · rw [same]
    exact placed.distinct
  · rw [same]
    exact above

namespace Store

/-- The references of the policy in force, and its objects. -/
structure Intact (s : Store) : Prop where
  closed : s.current.Closed
  placed : s.current.Placed s.allocated

/-- An object that is in no policy any more, and never will be again. -/
structure Gone (address : Nat) (s : Store) : Prop where
  old : address < s.allocated
  absent : ∀ name r, s.current.roles.lookup name = some r → r.address ≠ address

section
variable {cost : Bytes → Bool} {s : Store}

def spares (s : Store) : Change → Bool
  | .deleteRole name =>
    s.current.oauthRules.all fun rule => decide (s.current.roles.lookup name ≠ some rule.role)
  | _ => true

def sparesAll (cost : Bytes → Bool) : Store → List Change → Bool
  | _, [] => true
  | s, c :: changes => s.spares c && sparesAll cost (s.change cost c).1 changes

theorem Intact.change (intact : s.Intact) (c : Change) (spared : s.spares c = true) :
    (s.change cost c).1.Intact := by
  have effect := change_effect cost s c
  generalize (s.change cost c).1 = s' at effect ⊢
  cases effect with
  | kept _ same grown =>
    constructor
    · rw [same]
      exact intact.closed
    · rw [same]
      exact intact.placed.mono grown
  | created role parsed absent edit next =>
    obtain ⟨rfl, address⟩ := parseRole_name parsed
    constructor
    · rw [edit]
      exact intact.closed.insertRole absent
    · rw [edit, next]
      exact intact.placed.insertRole address
  | userSet role defined edit next =>
    constructor
    · rw [edit]
      exact intact.closed.setUsers _
    · rw [edit, next]
      exact ⟨intact.placed.below, intact.placed.distinct⟩
  | userDeleted guarded edit next =>
    constructor
    · rw [edit]
      exact intact.closed.setUsers _
    · rw [edit, next]
      exact ⟨intact.placed.below, intact.placed.distinct⟩
  | roleDeleted role defined edit next =>
    constructor
    · rw [edit]
      apply intact.closed.eraseRole defined
      rintro rule mem rfl
      have other := List.all_eq_true.mp spared rule mem
      simp [defined] at other
    · rw [edit, next]
      exact intact.placed.eraseRole _ _
  | reloaded built => exact ⟨build_closed built, (build_placed built).1⟩

theorem Intact.changeAll (intact : s.Intact) (changes : List Change)
    (spared : s.sparesAll cost changes = true) : (s.changeAll cost changes).Intact := by
  induction changes generalizing s with
  | nil => exact intact
  | cons c changes ih =>
    rw [sparesAll, Bool.and_eq_true] at spared
    exact ih (intact.change c spared.1) spared.2

theorem sparesAll_append (before after : List Change) :
    s.sparesAll cost (before ++ after) =
      (s.sparesAll cost before && (s.changeAll cost before).sparesAll cost after) := by
  induction before generalizing s with
  | nil => rfl
  | cons c before ih =>
    rw [List.cons_append, sparesAll, ih, sparesAll, Bool.and_assoc]
    rfl

theorem Gone.change {address : Nat} (gone : s.Gone address) (c : Change) :
    (s.change cost c).1.Gone address := by
  have effect := change_effect cost s c
  generalize (s.change cost c).1 = s' at effect ⊢
  cases effect with
  | kept _ same grown => exact ⟨Nat.lt_of_lt_of_le gone.old grown, same ▸ gone.absent⟩
  | created role parsed absent edit next =>
    refine ⟨next ▸ Nat.lt_succ_of_lt gone.old, ?_⟩
    rw [edit]
    intro name r found
    rcases lookup_insert_cases found with ⟨-, rfl⟩ | ⟨-, old⟩
    · rw [(parseRole_name parsed).2]
      exact (Nat.ne_of_lt gone.old).symm
    · exact gone.absent name r old
  | userSet role defined edit next => exact ⟨next ▸ gone.old, edit ▸ gone.absent⟩
  | userDeleted guarded edit next => exact ⟨next ▸ gone.old, edit ▸ gone.absent⟩
  | roleDeleted role defined edit next =>
    refine ⟨next ▸ gone.old, ?_⟩
    rw [edit]
    intro name r found
    exact gone.absent name r (lookup_erase_some found).2
  | reloaded built =>
    obtain ⟨-, low, above⟩ := build_placed built
    refine ⟨Nat.lt_of_lt_of_le gone.old low, ?_⟩
    intro name r found
    exact (Nat.ne_of_lt (Nat.lt_of_lt_of_le gone.old (above name r found))).symm

theorem Gone.changeAll {address : Nat} (gone : s.Gone address) (changes : List Change) :
    (s.changeAll cost changes).Gone address := by
  induction changes generalizing s with
  | nil => exact gone
  | cons c changes ih => exact ih (gone.change c)

theorem Intact.deleteRole_gone (intact : s.Intact) {name : Bytes} {role : Role}
    (defined : s.current.roles.lookup name = some role) :
    (s.change cost (.deleteRole name)).1.Gone role.address := by
  obtain ⟨edit, next, -⟩ := deleteRole_defined defined
  constructor
  · change role.address < (s.deleteRole name).1.allocated
    rw [next]
    exact intact.placed.below name role defined
  · change ∀ n r, (s.deleteRole name).1.current.roles.lookup n = some r → r.address ≠ role.address
    rw [edit]
    intro n r found same
    obtain ⟨other, kept⟩ := lookup_erase_some found
    exact other (intact.placed.distinct n name r role kept defined same)

end

end Store

def PolicyStore.Obtains (p : PolicyStore) (r : Role) : Prop :=
  (∃ username, p.roleFor username = some r) ∨ ∃ claims, p.roleForClaims claims = some r

theorem PolicyStore.Closed.obtains {p : PolicyStore} (closed : p.Closed) {r : Role}
    (obtained : p.Obtains r) : p.roles.lookup r.name = some r := by
  rcases obtained with ⟨username, resolved⟩ | ⟨claims, resolved⟩
  · exact closed.roleFor resolved
  · exact closed.roleForClaims resolved

/-- While no role is deleted that an OAuth rule holds, logins obtain defined roles only, never a
deleted object. -/
theorem deleted_roles_confer_nothing (cost : Bytes → Bool) (fc : FileConfig)
    (allocated next : Nat) (p : PolicyStore) (built : fc.build cost allocated = .ok (next, p))
    (changes : List Change) (spared : (Store.new (some p) next).sparesAll cost changes = true) :
    let s := (Store.new (some p) next).changeAll cost changes
    (∀ r, s.current.Obtains r → s.current.roles.lookup r.name = some r) ∧
      ∀ before name role after, changes = before ++ .deleteRole name :: after →
        ((Store.new (some p) next).changeAll cost before).current.roles.lookup name = some role →
        ∀ r, s.current.Obtains r → r.address ≠ role.address := by
  have start : (Store.new (some p) next).Intact := ⟨build_closed built, (build_placed built).1⟩
  have closed := (start.changeAll changes spared).closed
  refine ⟨fun r obtained => closed.obtains obtained, ?_⟩
  rintro before name role after rfl defined r obtained
  rw [Store.sparesAll_append, Bool.and_eq_true] at spared
  have deleted : (((Store.new (some p) next).changeAll cost before).change cost
      (.deleteRole name)).1.Gone role.address :=
    (start.changeAll before spared.1).deleteRole_gone defined
  have later : ((Store.new (some p) next).changeAll cost
      (before ++ .deleteRole name :: after)).Gone role.address := by
    rw [Store.changeAll, List.foldl_append]
    exact deleted.changeAll after
  exact later.absent r.name r (closed.obtains obtained)

/-- One role for everyone in the group ops, and one for everyone else with a password. -/
def FileConfig.tokens : FileConfig where
  roles := [⟨ascii "ops", [ascii "+@all"]⟩, ⟨ascii "reader", [ascii "+@read"]⟩]
  users := [⟨ascii "default", [], ascii "reader", true⟩]
  defaultRole := ascii "reader"
  oauthRules := [⟨ascii "groups", ascii "ops", ascii "ops"⟩]

theorem deleted_roles_confer_nothing_reader :
    ∃ next p, FileConfig.tokens.build (fun _ => true) 0 = .ok (next, p) ∧
      let changes : List Change :=
        [.deleteRole (ascii "reader"), .createRole (ascii "reader") [ascii "+GET"]]
      let s := (Store.new (some p) next).changeAll (fun _ => true) changes
      (∀ r, s.current.Obtains r → s.current.roles.lookup r.name = some r) ∧
        (s.current.roleFor (ascii "default")).map Role.address = some 2 :=
  ⟨_, _, rfl,
    (deleted_roles_confer_nothing (fun _ => true) .tokens 0 _ _ rfl
      [.deleteRole (ascii "reader"), .createRole (ascii "reader") [ascii "+GET"]]
      (by decide +kernel)).1, by decide +kernel⟩

theorem token_obtains_deleted_role :
    ∃ next p, FileConfig.tokens.build (fun _ => true) 0 = .ok (next, p) ∧
      let s := (Store.new (some p) next).changeAll (fun _ => true) [.deleteRole (ascii "ops")]
      let claims : Claims := AList.singleton (ascii "groups") [ascii "ops"]
      ((s.current.roleForClaims claims).map Role.name = some (ascii "ops") ∧
        s.current.roles.lookup (ascii "ops") = none) :=
  ⟨_, _, rfl, by decide +kernel⟩

end Tellstone.Rbac
