import Panmail.Lib.Run

/-!
# Changing a user while others do

`UpdateUserRole`, `UpdateUserTwoFactor` and `DeleteUser` as the reads and writes they are: the
guard of the service reads the target, the usecase reads it again, and the statements that
follow name the user by id alone. Requests of any number of callers take these steps in any
order.
-/
namespace Panmail.Auth

open Runs List

/-- `UserRole`, with the numbers a request may carry that have no name. -/
inductive UserRole where
  | unspecified | viewer | editor | admin | superAdmin
  | other (n : Int)
  deriving DecidableEq

/-- The columns of `users` that the requests read or write. -/
structure User where
  tenantID : String
  role : UserRole
  twoFactorEnabled : Bool
  twoFactorSecret : String

structure UserTables where
  users : String → Option User
  /-- The roles by user and tenant; none where the usecase has no membership repository. -/
  memberships : Option (String → String → Option UserRole)

inductive UserOperation where
  | updateUserRole (role : UserRole)
  | updateUserTwoFactor (enabled : Bool)
  | deleteUser
  deriving DecidableEq

/-- A request with the role and the tenant of its caller's token. -/
structure UserRequest where
  callerRole : UserRole
  tenantID : String
  id : String
  operation : UserOperation

inductive UserError where
  | unauthenticated | promoteToSuperAdmin | modifySuperAdmin | twoFactorElsewhere
  | userNotFound | superAdminFromGuestTenant | notAMember | homeTenantOnlyDeletion | failed

inductive UserStatement where
  | updateRole (role : UserRole)
  | updateTwoFactor (enabled : Bool) (secret : String)
  | delete
  | updateMembershipRole (role : UserRole)
  | removeAllForUser

/-- What a request does next: a read of `GetInTenant` for the guard or for the usecase, or its
statements. -/
inductive UserPhase where
  | guard
  | guardMembership (user : User)
  | usecase
  | usecaseMembership (user : User)
  | writing (statements : List UserStatement)
  | answered (error : Option UserError)

namespace UserRequest

/-- What is refused before anything is read. -/
def received (r : UserRequest) : UserPhase :=
  if r.operation = .updateUserRole .superAdmin ∧ r.callerRole ≠ .superAdmin then
    .answered (some .promoteToSuperAdmin)
  else if r.tenantID = "" then .answered (some .unauthenticated)
  else .guard

/-- `GetByID` in `GetInTenant`. -/
def read (r : UserRequest) (db : UserTables) (native elsewhere : User → UserPhase) : UserPhase :=
  match db.users r.id with
  | none => .answered (some .userNotFound)
  | some user => if user.tenantID = r.tenantID then native user else elsewhere user

/-- The membership read in `GetInTenant`: inside the tenant a guest has its role, unless a super
admin. -/
def readMembership (r : UserRequest) (db : UserTables) (found : User → UserPhase) (user : User) :
    UserPhase :=
  match db.memberships.bind fun roles => roles r.id r.tenantID with
  | none => .answered (some .userNotFound)
  | some role => found (if user.role ≠ .superAdmin then { user with role := role } else user)

/-- `resolveTargetInTenant`, and for a second factor `guardTwoFactorTarget`. -/
def guarded (r : UserRequest) (target : User) : UserPhase :=
  if target.role = .superAdmin ∧ r.callerRole ≠ .superAdmin then
    .answered (some .modifySuperAdmin)
  else match r.operation with
    | .updateUserTwoFactor _ =>
      if target.tenantID ≠ r.tenantID ∧ r.callerRole ≠ .superAdmin then
        .answered (some .twoFactorElsewhere)
      else .usecase
    | _ => .usecase

/-- The usecase once it has read the user, with a membership repository or without one. -/
def planned (r : UserRequest) (linked : Bool) (user : User) : UserPhase :=
  match r.operation with
  | .updateUserRole role =>
    if role = .superAdmin then .writing [.updateRole role]
    else if user.role = .superAdmin ∧ user.tenantID ≠ r.tenantID then
      .answered (some .superAdminFromGuestTenant)
    else if user.tenantID = r.tenantID then
      .writing (.updateRole role :: if linked then [.updateMembershipRole role] else [])
    else if linked then .writing [.updateMembershipRole role]
    else .answered (some .notAMember)
  | .updateUserTwoFactor enabled => .writing [.updateTwoFactor enabled user.twoFactorSecret]
  | .deleteUser =>
    if user.tenantID ≠ r.tenantID then .answered (some .homeTenantOnlyDeletion)
    else .writing ((if linked then [.removeAllForUser] else []) ++ [.delete])

end UserRequest

def UserTables.edit (db : UserTables) (id : String) (f : User → Option User) : UserTables :=
  { db with users := fun y => if y = id then (db.users id).bind f else db.users y }

def UserTables.link (db : UserTables) (f : (String → String → Option UserRole) → String → String →
    Option UserRole) : UserTables := { db with memberships := db.memberships.map f }

def UserTables.run (db : UserTables) (r : UserRequest) : UserStatement → UserTables
  | .updateRole role => db.edit r.id fun u => some { u with role := role }
  | .updateTwoFactor enabled secret =>
    db.edit r.id fun u => some { u with twoFactorEnabled := enabled, twoFactorSecret := secret }
  | .delete => db.edit r.id fun _ => none
  | .updateMembershipRole role => db.link fun roles id tenant =>
    if id = r.id ∧ tenant = r.tenantID then (roles id tenant).map fun _ => role else roles id tenant
  | .removeAllForUser => db.link fun roles id tenant => if id = r.id then none else roles id tenant

def UserRequest.advance (r : UserRequest) (db : UserTables) : UserPhase → UserTables × UserPhase
  | .guard => (db, r.read db r.guarded .guardMembership)
  | .guardMembership user => (db, r.readMembership db r.guarded user)
  | .usecase => (db, r.read db (r.planned db.memberships.isSome) .usecaseMembership)
  | .usecaseMembership user => (db, r.readMembership db (r.planned db.memberships.isSome) user)
  | .writing (s :: rest) => (db.run r s, .writing rest)
  | .writing [] => (db, .answered none)
  | .answered error => (db, .answered error)

structure UserCall where
  request : UserRequest
  phase : UserPhase

structure UserWorld where
  db : UserTables
  calls : List UserCall

inductive UserAction where
  | receive (r : UserRequest)
  | proceed (i : Nat)
  | fail (i : Nat)

def UserWorld.step (w : UserWorld) : UserAction → Option UserWorld
  | .receive r => some { w with calls := w.calls ++ [⟨r, r.received⟩] }
  | .proceed i => w.calls[i]?.map fun c =>
    ⟨(c.request.advance w.db c.phase).1,
      w.calls.set i { c with phase := (c.request.advance w.db c.phase).2 }⟩
  | .fail i => w.calls[i]?.map fun c =>
    { w with calls := w.calls.set i { c with phase := .answered (some .failed) } }

/-! ### What a super admin is safe from -/

def UserStatement.account : UserStatement → Bool
  | .updateRole _ | .updateTwoFactor _ _ | .delete => true
  | .updateMembershipRole _ | .removeAllForUser => false

/-- A step that writes an account for a caller who is not a super admin finds an account that
is not one either. -/
def UserWorld.Spares (w : UserWorld) : UserAction → Prop
  | .proceed i => ∀ c s rest, w.calls[i]? = some c → c.phase = .writing (s :: rest) →
      s.account = true → c.request.callerRole ≠ .superAdmin →
      ∀ u, w.db.users c.request.id = some u → u.role ≠ .superAdmin
  | .receive _ | .fail _ => True

/-- The request of a caller who is not a super admin has passed its guard, and the account is
still to be written. -/
def UserCall.exposed (c : UserCall) : Bool :=
  c.request.callerRole ≠ .superAdmin && match c.phase with
    | .usecase => true
    | .writing statements => statements.any UserStatement.account
    | _ => false

def UserCall.promotes (c : UserCall) : Bool := match c.phase with
  | .writing (.updateRole .superAdmin :: _) => true
  | _ => false

/-- A promotion to super admin is written while no request from the home tenant of the promoted
is exposed. -/
def UserWorld.unraced (w : UserWorld) : UserAction → Bool
  | .proceed i => w.calls[i]?.all fun c => !c.promotes || w.calls.all fun d =>
      !(d.exposed && d.request.id = c.request.id &&
        (w.db.users c.request.id).any fun u => u.tenantID = d.request.tenantID)
  | .receive _ | .fail _ => true

/-! ### The invariant -/

/-- What the guard and the home tenant leave a request of a caller who is not a super admin. -/
def UserCall.Cleared (db : UserTables) (c : UserCall) : Prop :=
  match c.phase with
  | .answered _ => True
  | .guard => c.request.operation ≠ .updateUserRole .superAdmin
  | .guardMembership user => c.request.operation ≠ .updateUserRole .superAdmin ∧
      user.tenantID ≠ c.request.tenantID ∧
      ∀ u, db.users c.request.id = some u → u.tenantID ≠ c.request.tenantID
  | .usecase => c.request.operation ≠ .updateUserRole .superAdmin ∧
      ∀ u, db.users c.request.id = some u →
        (u.tenantID = c.request.tenantID → u.role ≠ .superAdmin) ∧
        ∀ e, c.request.operation = .updateUserTwoFactor e → u.tenantID = c.request.tenantID
  | .usecaseMembership user => c.request.operation ≠ .updateUserRole .superAdmin ∧
      user.tenantID ≠ c.request.tenantID ∧ ∀ e, c.request.operation ≠ .updateUserTwoFactor e
  | .writing statements => (∀ s ∈ statements, s ≠ .updateRole .superAdmin) ∧
      (statements.any UserStatement.account = true → ∀ u, db.users c.request.id = some u →
        u.tenantID = c.request.tenantID ∧ u.role ≠ .superAdmin)

open UserRequest

def UserWorld.Guarded (w : UserWorld) : Prop :=
  ∀ c ∈ w.calls, c.request.callerRole ≠ .superAdmin → c.Cleared w.db

section
variable {db db' : UserTables} {r : UserRequest} {c : UserCall} {user u' : User} {y : String}

theorem users_run {s : UserStatement} (found : (db.run r s).users y = some u') :
    ∃ u, db.users y = some u ∧
      u'.tenantID = u.tenantID ∧ (u'.role = .superAdmin → u.role = .superAdmin ∨
        y = r.id ∧ s = .updateRole .superAdmin) := by
  have edited : ∀ f : User → Option User, (db.edit r.id f).users y = some u' →
      db.users y = some u' ∨ ∃ u, y = r.id ∧ db.users y = some u ∧ f u = some u' := by
    intro f found
    simp only [UserTables.edit] at found
    split at found
    next here =>
      obtain ⟨u, row, result⟩ := Option.bind_eq_some_iff.mp found
      exact .inr ⟨u, here, here ▸ row, result⟩
    · exact .inl found
  cases s with
  | updateRole =>
    rcases edited _ found with same | ⟨u, here, row, result⟩
    · exact ⟨u', same, rfl, .inl⟩
    · cases result
      exact ⟨u, row, rfl, fun promoted => .inr ⟨here, congrArg _ promoted⟩⟩
  | updateTwoFactor =>
    rcases edited _ found with same | ⟨u, _, row, result⟩
    · exact ⟨u', same, rfl, .inl⟩
    · cases result
      exact ⟨u, row, rfl, .inl⟩
  | delete =>
    rcases edited _ found with same | ⟨_, _, _, result⟩
    · exact ⟨u', same, rfl, .inl⟩
    · cases result
  | updateMembershipRole | removeAllForUser => exact ⟨u', found, rfl, .inl⟩

/-- A request stays cleared when the target stays where it is and is not promoted under it. -/
theorem UserCall.Cleared.kept (cleared : c.Cleared db) (other : c.request.callerRole ≠ .superAdmin)
    (rows : ∀ u', db'.users c.request.id = some u' → ∃ u, db.users c.request.id = some u ∧
      u'.tenantID = u.tenantID ∧ (u'.role = .superAdmin → u.role = .superAdmin ∨
        ¬ (c.exposed = true ∧ u.tenantID = c.request.tenantID))) : c.Cleared db' := by
  obtain ⟨r, phase⟩ := c
  cases phase with
  | answered => trivial
  | guard | usecaseMembership => exact cleared
  | guardMembership =>
    refine ⟨cleared.1, cleared.2.1, fun u' found => ?_⟩
    obtain ⟨u, row, tenant, _⟩ := rows u' found
    exact tenant ▸ cleared.2.2 u row
  | usecase =>
    refine ⟨cleared.1, fun u' found => ?_⟩
    obtain ⟨u, row, tenant, promoted⟩ := rows u' found
    obtain ⟨ordinary, home⟩ := cleared.2 u row
    rw [tenant]
    refine ⟨fun native super => ?_, home⟩
    rcases promoted super with before | unexposed
    · exact ordinary native before
    · exact unexposed ⟨by simpa [UserCall.exposed] using other, native⟩
  | writing =>
    refine ⟨cleared.1, fun account u' found => ?_⟩
    obtain ⟨u, row, tenant, promoted⟩ := rows u' found
    obtain ⟨native, ordinary⟩ := cleared.2 account u row
    refine ⟨tenant ▸ native, fun super => ?_⟩
    rcases promoted super with before | unexposed
    · exact ordinary before
    · exact unexposed ⟨by simpa [UserCall.exposed, other] using account, native⟩

theorem guarded_cases (r : UserRequest) (target : User)
    (other : r.callerRole ≠ .superAdmin) : (∃ e, r.guarded target = .answered e) ∨
      r.guarded target = .usecase ∧ target.role ≠ .superAdmin ∧
        ∀ e, r.operation = .updateUserTwoFactor e → target.tenantID = r.tenantID := by
  unfold guarded
  split
  · exact .inl ⟨_, rfl⟩
  next passed =>
    have ordinary : target.role ≠ .superAdmin := fun super => passed ⟨super, other⟩
    split
    · split
      · exact .inl ⟨_, rfl⟩
      next home =>
        refine .inr ⟨rfl, ordinary, fun _ _ => ?_⟩
        exact Decidable.byContradiction fun away => home ⟨away, other⟩
    next noFactor => exact .inr ⟨rfl, ordinary, fun e factor => absurd factor (noFactor e)⟩

/-- From elsewhere the usecase writes no account, and a promotion is never its idea. -/
theorem planned_cases (r : UserRequest) (linked : Bool) (user : User)
    (unpromoting : r.operation ≠ .updateUserRole .superAdmin) :
    (∃ e, r.planned linked user = .answered e) ∨ ∃ statements,
      r.planned linked user = .writing statements ∧
      (∀ s ∈ statements, s ≠ .updateRole .superAdmin) ∧
      (user.tenantID ≠ r.tenantID → (∀ e, r.operation ≠ .updateUserTwoFactor e) →
        statements.any UserStatement.account = false) := by
  unfold planned
  cases operation : r.operation with
  | updateUserRole role =>
    have lower : role ≠ .superAdmin := fun super => unpromoting (super ▸ operation)
    simp only [lower, if_false]
    split
    · exact .inl ⟨_, rfl⟩
    · split
      next home =>
        refine .inr ⟨_, rfl, ?_, fun away => absurd home away⟩
        cases linked <;> simp [lower]
      · cases linked
        · exact .inl ⟨_, rfl⟩
        · exact .inr ⟨_, rfl, by simp, fun _ _ => rfl⟩
  | updateUserTwoFactor enabled =>
    exact .inr ⟨_, rfl, by simp, fun _ none => absurd rfl (none enabled)⟩
  | deleteUser =>
    simp only
    split
    · exact .inl ⟨_, rfl⟩
    next home =>
      refine .inr ⟨_, rfl, ?_, fun away => absurd away home⟩
      cases linked <;> simp

theorem seenAs (user : User) (role : UserRole) : ∃ target : User,
    (if user.role ≠ .superAdmin then { user with role := role } else user) = target ∧
      target.tenantID = user.tenantID := ⟨_, rfl, by split <;> rfl⟩

theorem UserCall.Cleared.advance (cleared : c.Cleared db)
    (other : c.request.callerRole ≠ .superAdmin) : UserCall.Cleared (c.request.advance db c.phase).1
      { c with phase := (c.request.advance db c.phase).2 } := by
  obtain ⟨r, phase⟩ := c
  cases phase with
  | answered => trivial
  | guard =>
    simp only [UserRequest.advance, UserRequest.read]
    cases row : db.users r.id with
    | none => trivial
    | some user =>
      dsimp only
      split
      next native =>
        rcases guarded_cases r user other with ⟨e, refused⟩ | ⟨passed, ordinary, home⟩
        · rw [refused]
          trivial
        · rw [passed]
          refine ⟨cleared, fun u found => ?_⟩
          rw [row] at found
          cases found
          exact ⟨fun _ => ordinary, home⟩
      next away =>
        refine ⟨cleared, away, fun u found => ?_⟩
        rw [row] at found
        cases found
        exact away
  | guardMembership user =>
    obtain ⟨unpromoting, away, rows⟩ := cleared
    simp only [advance, readMembership]
    split
    · trivial
    next role found =>
      -- the membership's role is what the guard sees, and the tenant is what it was
      obtain ⟨target, seen, tenant⟩ := seenAs user role
      rw [seen]
      rcases guarded_cases r target other with ⟨e, refused⟩ | ⟨passed, _, home⟩
      · rw [refused]
        trivial
      · rw [passed]
        refine ⟨unpromoting, fun u row => ⟨fun native => absurd native (rows u row), fun e factor => ?_⟩⟩
        exact absurd (tenant ▸ home e factor) away
  | usecase =>
    obtain ⟨unpromoting, rows⟩ := cleared
    simp only [UserRequest.advance, UserRequest.read]
    cases row : db.users r.id with
    | none => trivial
    | some user =>
      obtain ⟨ordinary, home⟩ := rows user row
      dsimp only
      split
      next native =>
        rcases planned_cases r db.memberships.isSome user unpromoting with
          ⟨e, refused⟩ | ⟨statements, plan, lower, _⟩
        · rw [refused]
          trivial
        · rw [plan]
          refine ⟨lower, fun _ u found => ?_⟩
          rw [row] at found
          cases found
          exact ⟨native, ordinary native⟩
      next away => exact ⟨unpromoting, away, fun e factor => away (home e factor)⟩
  | usecaseMembership user =>
    obtain ⟨unpromoting, away, noFactor⟩ := cleared
    simp only [advance, readMembership]
    split
    · trivial
    next role found =>
      obtain ⟨target, seen, tenant⟩ := seenAs user role
      rw [seen]
      rcases planned_cases r db.memberships.isSome target unpromoting with
        ⟨e, refused⟩ | ⟨statements, plan, lower, elsewhere⟩
      · rw [refused]
        trivial
      · rw [plan]
        refine ⟨lower, fun account => ?_⟩
        rw [elsewhere (tenant ▸ away) noFactor] at account
        cases account
  | writing statements =>
    cases statements with
    | nil => trivial
    | cons s =>
      obtain ⟨lower, rows⟩ := cleared
      refine ⟨fun t mem => lower t (mem_cons_of_mem _ mem), fun account u' found => ?_⟩
      obtain ⟨u, row, tenant, promoted⟩ := users_run found
      obtain ⟨native, ordinary⟩ := rows (by simp [account]) u row
      refine ⟨tenant ▸ native, fun super => ?_⟩
      rcases promoted super with before | ⟨_, promotion⟩
      · exact ordinary before
      · exact lower s mem_cons_self promotion

theorem advance_users (phase : UserPhase) (found : (r.advance db phase).1.users y = some u') :
    ∃ u, db.users y = some u ∧
      u'.tenantID = u.tenantID ∧ (u'.role = .superAdmin → u.role = .superAdmin ∨
        y = r.id ∧ UserCall.promotes ⟨r, phase⟩ = true) := by
  cases phase with
  | writing statements =>
    cases statements with
    | nil => exact ⟨u', found, rfl, .inl⟩
    | cons =>
      obtain ⟨u, row, tenant, promoted⟩ := users_run found
      refine ⟨u, row, tenant, fun super => (promoted super).imp_right ?_⟩
      rintro ⟨here, rfl⟩
      exact ⟨here, rfl⟩
  | _ => exact ⟨u', found, rfl, .inl⟩

end

theorem UserWorld.Guarded.step {w v : UserWorld} {a : UserAction} (guarded : w.Guarded)
    (unraced : w.unraced a = true) (h : w.step a = some v) : v.Guarded := by
  cases a with
  | receive r =>
    cases h
    intro c mem other
    rcases mem_append.mp mem with old | new
    · exact guarded c old other
    · obtain rfl := mem_singleton.mp new
      unfold UserCall.Cleared received
      by_cases promotion : r.operation = .updateUserRole .superAdmin
      · simp [promotion, other]
      · by_cases anonymous : r.tenantID = "" <;> simp [promotion, anonymous]
  | proceed =>
    obtain ⟨c, found, rfl⟩ := Option.map_eq_some_iff.mp h
    intro d mem other
    rcases mem_or_eq_of_mem_set mem with old | rfl
    · refine (guarded d old other).kept other fun u' row' => ?_
      obtain ⟨u, row, tenant, promoted⟩ := advance_users c.phase row'
      refine ⟨u, row, tenant, fun super => (promoted super).imp_right ?_⟩
      rintro ⟨here, promotes⟩ ⟨exposed, native⟩
      -- the promotion of this call's target, which the schedule rules out here
      simp only [UserWorld.unraced, found, Option.all_some, Bool.or_eq_true, Bool.not_eq_true',
        all_eq_true] at unraced
      have clear := unraced.resolve_left (by simp [show c.promotes = true from promotes]) d old
      rw [← here, row] at clear
      simp [exposed, native] at clear
    · exact (guarded c (mem_of_getElem? found) other).advance other
  | fail =>
    obtain ⟨c, found, rfl⟩ := Option.map_eq_some_iff.mp h
    exact forall_mem_set guarded fun _ => trivial

/-- Where no promotion to super admin overtakes an exposed request, no caller who is not a super
admin writes the role, the second factor or the deletion of an account that is one at that moment.
-/
theorem super_admins_spared (db : UserTables) (actions : List UserAction)
    (along : AllSteps UserWorld.step (fun w a => w.unraced a = true) ⟨db, []⟩ actions) :
    AllSteps UserWorld.step UserWorld.Spares ⟨db, []⟩ actions := by
  refine (allSteps_iff UserWorld.step (fun w a => w.unraced a = true) UserWorld.Spares
    (fun _ _ => True) UserWorld.Guarded (fun w a v unraced guarded h => guarded.step unraced h)
    (fun w a _ guarded => iff_true_intro ?_) ⟨db, []⟩ actions (fun _ member => nomatch member)
    along).mpr (allSteps_of_labels _ _ _ _ fun _ _ _ => trivial)
  cases a with
  | proceed =>
    intro c s rest found phase account other u row
    have cleared := guarded c (mem_of_getElem? found) other
    simp only [UserCall.Cleared, phase] at cleared
    exact (cleared.2 (by simp [account]) u row).2
  | receive | fail => trivial

def annsTable : UserTables :=
  ⟨fun id => if id = "ann" then some ⟨"t", .editor, true, "s"⟩ else none,
    some fun id tenant => if id = "ann" ∧ tenant = "t" then some .editor else none⟩

def deletesAnn : UserRequest := ⟨.admin, "t", "ann", .deleteUser⟩

def promotesAnn : UserRequest := ⟨.superAdmin, "t", "ann", .updateUserRole .superAdmin⟩

/-- The promotion comes first, and the administrator is refused. -/
theorem super_admins_spared_promoted : AllSteps UserWorld.step UserWorld.Spares ⟨annsTable, []⟩
    [.receive deletesAnn, .receive promotesAnn, .proceed 1, .proceed 1, .proceed 1, .proceed 0,
      .proceed 0] :=
  super_admins_spared _ _ (by decide)

/-- The administrator's guard reads Ann before the promotion, and deletes the super admin. -/
theorem promoted_ann_deleted : ∃ w v,
    exec UserWorld.step ⟨annsTable, []⟩ [.receive deletesAnn, .receive promotesAnn, .proceed 0,
      .proceed 1, .proceed 1, .proceed 1, .proceed 0, .proceed 0] = some w ∧
    (w.db.users "ann").map User.role = some .superAdmin ∧ w.step (.proceed 0) = some v ∧
    v.db.users "ann" = none ∧ ¬ w.Spares (.proceed 0) := by
  refine ⟨_, _, rfl, by decide, rfl, by decide, fun spared => ?_⟩
  exact spared _ .delete [] rfl rfl rfl (by decide) _ rfl rfl

end Panmail.Auth
