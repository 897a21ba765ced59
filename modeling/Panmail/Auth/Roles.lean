import Panmail.Auth.UserRequests

/-!
# The role a user holds, and the role the list shows

The role of a user at home stands in `users`, where `RoleIn` reads it, and in the home membership,
where `ListUsers` does. The operations keep the two in step, but for one: a user who is created with
a role that is none, such as the unspecified one, is listed as an administrator.
-/
namespace Panmail.Auth

open Runs

def UserRole.isTenantRole : UserRole → Bool
  | .viewer | .editor | .admin => true
  | .unspecified | .superAdmin | .other _ => false

namespace UserTables

def empty : UserTables := ⟨fun _ => none, some fun _ _ => none⟩

def membership (db : UserTables) (id tenantID : String) : Option UserRole :=
  db.memberships.bind fun roles => roles id tenantID

def assign (db : UserTables) (id tenantID : String) (role : UserRole) : UserTables :=
  db.link fun roles y t => if y = id ∧ t = tenantID then some role else roles y t

/-- `CreateUser`, under an id that is new. -/
def createUser (db : UserTables) (id tenantID : String) (role : UserRole) : Option UserTables :=
  if (db.users id).isSome then none
  else
    let created := { db with
      users := fun y => if y = id then some ⟨tenantID, role, false, ""⟩ else db.users y }
    -- `assignHomeMembership`
    some (if tenantID = "" then created
      else created.assign id tenantID (if role.isTenantRole then role else .admin))

def assignUserToTenant (tenants : String → Bool) (db : UserTables) (userID tenantID : String)
    (role : UserRole) : Option UserTables :=
  match db.users userID with
  | none => none
  | some user =>
    if role.isTenantRole && tenants tenantID then
      let assigned := db.assign userID tenantID role
      some (if tenantID = user.tenantID ∧ user.role ≠ .superAdmin then
        assigned.edit userID fun u => some { u with role := role } else assigned)
    else none

def removeUserFromTenant (db : UserTables) (userID tenantID : String) : Option UserTables :=
  match db.users userID with
  | none => none
  | some user =>
    if tenantID = user.tenantID ∨ db.membership userID tenantID = none then none
    else some (db.link fun roles y t => if y = userID ∧ t = tenantID then none else roles y t)

/-- `RoleIn`: none for no such user, and no role for one who is no member. -/
def roleIn (db : UserTables) (userID tenantID : String) : Option (Option UserRole) :=
  (db.users userID).map fun user =>
    if user.role = .superAdmin then some .superAdmin
    else if tenantID = user.tenantID then some user.role
    else db.membership userID tenantID

/-- The role in the row that `ListUsers` has for the user, if there is one. -/
def listUsers (db : UserTables) (tenantID id : String) : Option UserRole :=
  (db.users id).bind fun user => (db.membership id tenantID).map fun role =>
    if user.role = .superAdmin then user.role else role

end UserTables

/-- The usecase of a request, with nobody in between. -/
def UserRequest.execute (r : UserRequest) (db : UserTables) : Option UserTables :=
  let plan := r.planned db.memberships.isSome
  match r.read db plan (r.readMembership db plan) with
  | .writing statements => some (statements.foldl (fun db s => db.run r s) db)
  | _ => none

inductive UserChange where
  | createUser (id tenantID : String) (role : UserRole)
  /-- `UpdateUserRole`, `UpdateUserTwoFactor` or `DeleteUser`. -/
  | request (r : UserRequest)
  | assignUserToTenant (userID tenantID : String) (role : UserRole)
  | removeUserFromTenant (userID tenantID : String)

/-- A call that succeeds. -/
def UserTables.step (tenants : String → Bool) (db : UserTables) : UserChange → Option UserTables
  | .createUser id tenantID role =>
    if tenantID = "" then none else db.createUser id tenantID role
  | .request r => r.execute db
  | .assignUserToTenant userID tenantID role =>
    if userID = "" ∨ tenantID = "" then none
    else db.assignUserToTenant tenants userID tenantID (if role = .unspecified then .viewer else role)
  | .removeUserFromTenant userID tenantID => db.removeUserFromTenant userID tenantID

/-- A user is created with a role that has a name. -/
def UserChange.named : UserChange → Bool
  | .createUser _ _ role => role.isTenantRole || role = .superAdmin
  | _ => true

namespace UserTables

/-- Where both are read, the home membership says what the user's row says. -/
def Agrees (db : UserTables) : Prop :=
  ∃ roles, db.memberships = some roles ∧ ∀ id u role, db.users id = some u →
    roles id u.tenantID = some role → u.role = .superAdmin ∨ role = u.role

variable {db db' : UserTables}

theorem Agrees.roleIn_eq {id tenantID : String} {role : UserRole} (agrees : db.Agrees)
    (shown : db.listUsers tenantID id = some role) : db.roleIn id tenantID = some (some role) := by
  obtain ⟨users, _⟩ := db
  obtain ⟨roles, rfl, home⟩ := agrees
  obtain ⟨user, row, shown⟩ := Option.bind_eq_some_iff.mp shown
  obtain ⟨member, has, rfl⟩ := Option.map_eq_some_iff.mp shown
  rw [roleIn, row, Option.map_some]
  by_cases super : user.role = .superAdmin
  · simp [super]
  · rw [if_neg super, if_neg super]
    split
    next native =>
      subst native
      rw [(home id user member row has).resolve_left super]
    · rw [has]

section
variable {users : String → Option User} {roles : String → String → Option UserRole}
  (home : ∀ id u role, users id = some u → roles id u.tenantID = some role →
    u.role = .superAdmin ∨ role = u.role)
  {r : UserRequest}
include home

theorem agrees_change {users' : String → Option User} {roles' : String → String → Option UserRole}
    (id : String) (others : ∀ y, y ≠ id → users' y = users y ∧ roles' y = roles y)
    (here : ∀ u role, users' id = some u → roles' id u.tenantID = some role →
      u.role = .superAdmin ∨ role = u.role) : Agrees ⟨users', some roles'⟩ := by
  refine ⟨roles', rfl, fun y u role found has => ?_⟩
  by_cases same : y = id
  · subst same
    exact here u role found has
  · obtain ⟨row, members⟩ := others y same
    exact home y u role (row.symm.trans found) (members ▸ has)

theorem agrees_planned {user target : User} {statements : List UserStatement}
    (row : users r.id = some user) (tenant : target.tenantID = user.tenantID)
    (plan : r.planned true target = .writing statements) :
    Agrees (statements.foldl (fun db s => db.run r s) ⟨users, some roles⟩) := by
  unfold UserRequest.planned at plan
  simp only [if_true] at plan
  repeat' split at plan
  all_goals cases plan
  -- of the target the statements write; everybody else is as before
  all_goals
    refine agrees_change home r.id (fun y away => by simp [run, edit, link, away])
      fun u member found has => ?_
    simp only [run, edit, link, row, if_true, true_and] at found has
    cases found
  next super => exact .inl super
  next native =>
    rw [if_pos (tenant ▸ native)] at has
    obtain ⟨_, _, rfl⟩ := Option.map_eq_some_iff.mp has
    exact .inr rfl
  next away =>
    rw [if_neg (tenant ▸ away)] at has
    exact home _ user member row has
  next => exact home r.id user member row has

theorem agrees_execute (h : r.execute ⟨users, some roles⟩ = some db') : db'.Agrees := by
  simp only [UserRequest.execute, UserRequest.read, UserRequest.readMembership] at h
  split at h <;> cases h
  next statements plan =>
    split at plan
    · cases plan
    next user row =>
      split at plan
      · exact agrees_planned home row rfl plan
      · -- a guest is read with the role of the membership, and the same home
        split at plan
        · cases plan
        next role _ => exact agrees_planned home row (by split <;> rfl) plan

theorem agrees_assigned {tenants : String → Bool} {userID tenantID : String} {role : UserRole}
    (h : assignUserToTenant tenants ⟨users, some roles⟩ userID tenantID role = some db') :
    db'.Agrees := by
  simp only [assignUserToTenant] at h
  split at h
  · cases h
  next user row =>
    split at h <;> cases h
    split
    all_goals
      refine agrees_change home userID (fun y away => by simp [assign, link, away])
        fun u member found has => ?_
      simp only [assign, link, row, if_true, true_and] at found has
      cases found
    next native =>
      cases (if_pos native.1.symm).symm.trans has
      exact .inr rfl
    next other =>
      by_cases super : user.role = .superAdmin
      · exact .inl super
      · rw [if_neg fun same => other ⟨same.symm, super⟩] at has
        exact home _ user member row has

end

theorem Agrees.step {tenants : String → Bool} {change : UserChange} (agrees : db.Agrees)
    (named : change.named = true) (h : db.step tenants change = some db') : db'.Agrees := by
  obtain ⟨users, _⟩ := db
  obtain ⟨roles, rfl, home⟩ := agrees
  cases change with
  | createUser id tenantID role =>
    simp only [UserTables.step, createUser] at h
    split at h
    · cases h
    split at h <;> cases h
    refine agrees_change home id (fun y away => by simp [away]) fun u member found has => ?_
    cases (if_pos rfl).symm.trans found
    cases (if_pos ⟨rfl, rfl⟩).symm.trans has
    simp only [UserChange.named, Bool.or_eq_true, decide_eq_true_eq] at named
    exact named.symm.imp_right fun tenant => if_pos tenant
  | request => exact agrees_execute home h
  | assignUserToTenant =>
    simp only [UserTables.step] at h
    split at h
    · cases h
    · exact agrees_assigned home h
  | removeUserFromTenant userID =>
    simp only [UserTables.step, removeUserFromTenant] at h
    split at h
    · cases h
    split at h <;> cases h
    refine agrees_change home userID (fun y away => by simp [away]) fun u member found has => ?_
    dsimp only at has
    split at has
    · cases has
    · exact home _ u member found has

end UserTables

/-- After any calls that succeed, none creating a user without a role, a tenant's list shows every
user with the role they have there. -/
theorem listed_role_held (tenants : String → Bool) {changes : List UserChange} {db : UserTables}
    (run : exec (UserTables.step tenants) .empty changes = some db)
    (named : ∀ change ∈ changes, change.named = true) {tenantID id : String} {role : UserRole}
    (shown : db.listUsers tenantID id = some role) :
    db.roleIn id tenantID = some (some role) := by
  have agrees : db.Agrees := invariant_along (UserTables.step tenants) (fun _ c => c.named = true)
    UserTables.Agrees (fun _ _ _ named inv h => inv.step named h) .empty db changes
    ⟨_, rfl, nofun⟩ (allSteps_of_labels _ _ _ _ fun c mem _ => named c mem) run
  exact agrees.roleIn_eq shown

/-- Ann visits another tenant, is made a super admin there, and loses that at home. -/
def annsCareer : List UserChange :=
  [.createUser "ann" "t" .editor, .assignUserToTenant "ann" "u" .unspecified,
    .request ⟨.superAdmin, "u", "ann", .updateUserRole .superAdmin⟩,
    .request ⟨.superAdmin, "t", "ann", .updateUserRole .viewer⟩]

theorem listed_role_held_ann : ∃ db, exec (UserTables.step fun _ => true) .empty annsCareer =
    some db ∧ db.listUsers "t" "ann" = some .viewer ∧ db.roleIn "ann" "t" = some (some .viewer) := by
  have runs : ∃ db ∈ exec (UserTables.step fun _ => true) .empty annsCareer,
      db.listUsers "t" "ann" = some .viewer := by decide
  obtain ⟨db, run, shown⟩ := runs
  exact ⟨db, run, shown, listed_role_held _ run (by decide) shown⟩

/-- A user created without a role has none, and is listed as an administrator. -/
theorem listed_as_admin : ∃ db, exec (UserTables.step fun _ => true) .empty
      [.createUser "ann" "t" .unspecified] = some db ∧
    db.listUsers "t" "ann" = some .admin ∧ db.roleIn "ann" "t" = some (some .unspecified) :=
  ⟨_, rfl, by decide, by decide⟩

end Panmail.Auth
