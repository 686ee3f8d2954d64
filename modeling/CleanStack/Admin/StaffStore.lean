import CleanStack.AccessControl.Staff

/-!
# Staff rows

The tables staff access is read from, the statements of the staff store, and
the functions that turn a row into access. A staff row grants access unless it
came from the environment and the environment no longer lists the person; a
listed person has every permission whatever the rows say.

`lockActiveManagers` returns the managers that still count, with the ones that
are denied the management of staff marked; the order of its rows, which only
keeps two transactions from locking each other out, is left out. `now` is the
clock of the transaction.
-/

namespace CleanStack.Admin

open CleanStack.Lib CleanStack.Drizzle CleanStack.AccessControl

inductive StaffSource
  | env
  | console
  | migration
  deriving DecidableEq, Repr

/-- The columns of a user that staff access and account deletion read. -/
structure UserRow where
  id : String
  banned : Option Bool
  banExpires : Option Time
  deletedAt : Option Time
  pendingDeletionUntil : Option Time
  twoFactorEnabled : Option Bool
  deriving DecidableEq

structure StaffMemberRow where
  userId : String
  role : String
  source : StaffSource
  createdBy : Option String
  updatedAt : Time
  revokedAt : Option Time
  deriving DecidableEq

structure OverrideRow where
  id : String
  userId : String
  permission : String
  effect : Effect
  createdBy : Option String
  expiresAt : Option Time
  revokedAt : Option Time
  deriving DecidableEq

instance : Keyed UserRow String := ⟨UserRow.id⟩
instance : Keyed StaffMemberRow String := ⟨StaffMemberRow.userId⟩
instance : Keyed OverrideRow String := ⟨OverrideRow.id⟩

structure StaffDb where
  users : Table UserRow
  members : Table StaffMemberRow
  overrides : Table OverrideRow

structure StaffRecord where
  userId : String
  role : StaffRole
  source : StaffSource
  banned : Bool
  overrides : List StaffPermissionOverride

structure StaffManagerRecord where
  userId : String
  source : StaffSource
  manageDenied : Bool

structure StaffEnv where
  PLATFORM_ADMIN_IDS : List String
  PLATFORM_ADMIN_REQUIRE_MFA : Bool

def StaffEnv.isListed (env : StaffEnv) (userId : String) : Bool :=
  env.PLATFORM_ADMIN_IDS.contains userId

/-! ## Reading -/

def banIsLive (banned : Option Bool) (banExpires : Option Time) (now : Time) : Bool :=
  banned = some true &&
    match banExpires with
    | none => true
    | some expires => now < expires

def overrideOf (r : OverrideRow) : Option StaffPermissionOverride :=
  (toStaffPermission? r.permission).map fun permission =>
    ⟨permission, r.effect, r.expiresAt⟩

/-- The unrevoked overrides of a person, with a permission the code knows. -/
def overridesOf (db : StaffDb) (userId : String) : List StaffPermissionOverride :=
  (db.overrides.rows.filter fun r => r.userId = userId && r.revokedAt = none).filterMap
    overrideOf

def findActive (db : StaffDb) (userId : String) (now : Time) : Option StaffRecord := do
  let member ← (db.members.find? userId).filter fun m => m.revokedAt = none
  let user ← db.users.find? userId
  let role ← toStaffRole? member.role
  some
    { userId := userId
      role := role
      source := member.source
      banned := banIsLive user.banned user.banExpires now
      overrides := overridesOf db userId }

def stillCountsAsManager (owner : UserRow) (now : Time) : Bool :=
  owner.deletedAt = none && owner.pendingDeletionUntil = none &&
    !banIsLive owner.banned owner.banExpires now

def deniesManagement (now : Time) (userId : String) (r : OverrideRow) : Bool :=
  r.userId = userId && r.permission = StaffPermission.staffManage.text &&
    r.effect = .deny && r.revokedAt = none &&
    match r.expiresAt with
    | none => true
    | some expiresAt => now < expiresAt

def isActiveManager (m : StaffMemberRow) : Bool :=
  m.role = StaffRole.manager.text && m.revokedAt = none

def lockActiveManagers (db : StaffDb) (now : Time) : List StaffManagerRecord :=
  (db.members.rows.filter isActiveManager).filterMap fun m =>
    match db.users.find? m.userId with
    | none => none
    | some owner =>
        if stillCountsAsManager owner now then
          some ⟨m.userId, m.source, db.overrides.rows.any (deniesManagement now m.userId)⟩
        else none

/-! ## Access -/

def grantsStaffAccess (userId : String) (source : StaffSource) (env : StaffEnv) : Bool :=
  source ≠ .env || env.isListed userId

def stillManages (env : StaffEnv) (m : StaffManagerRecord) : Bool :=
  !m.manageDenied || env.isListed m.userId

def isLastManager (targetUserId : String) (managers : List StaffManagerRecord)
    (env : StaffEnv) : Bool :=
  !managers.any fun m =>
    m.userId ≠ targetUserId && grantsStaffAccess m.userId m.source env && stillManages env m

def permissionsOfRecord (row : StaffRecord) (now : Time) : List StaffPermission :=
  effectivePermissions row.role row.overrides now

structure StaffAccess where
  role : StaffRole
  permissions : List StaffPermission
  mfaOk : Bool

def staffAccessOf (user : UserRow) (staffRow : Option StaffRecord) (env : StaffEnv)
    (now : Time) : Option StaffAccess :=
  let mfaOk := !env.PLATFORM_ADMIN_REQUIRE_MFA || user.twoFactorEnabled = some true
  if env.isListed user.id then
    some ⟨.manager, effectivePermissions .manager [] now, mfaOk⟩
  else
    (staffRow.filter fun row => grantsStaffAccess row.userId row.source env).map fun row =>
      ⟨row.role, permissionsOfRecord row now, mfaOk⟩

/-- What a person may do at a moment. -/
def permissionsAt (db : StaffDb) (env : StaffEnv) (userId : String) (now : Time) :
    List StaffPermission :=
  match db.users.find? userId with
  | none => []
  | some user =>
      match staffAccessOf user (findActive db userId now) env now with
      | none => []
      | some access => access.permissions

/-! ## Writing -/

def assignedRow (role : StaffRole) (createdBy : String) (now : Time)
    (m : StaffMemberRow) : StaffMemberRow :=
  { m with
    role := role.text
    source := .console
    createdBy := some createdBy
    updatedAt := now
    revokedAt := none }

theorem key_assignedRow (role : StaffRole) (createdBy : String) (now : Time)
    (m : StaffMemberRow) : Keyed.key (assignedRow role createdBy now m) = Keyed.key m :=
  rfl

def assign (db : StaffDb) (userId : String) (role : StaffRole) (createdBy : String)
    (now : Time) : StaffDb :=
  { db with
    members := db.members.upsert ⟨userId, role.text, .console, some createdBy, now, none⟩
      (assignedRow role createdBy now) (key_assignedRow role createdBy now) }

def revokeRow (now : Time) (m : StaffMemberRow) : StaffMemberRow :=
  { m with revokedAt := some now, updatedAt := now }

theorem key_revokeRow (now : Time) (m : StaffMemberRow) :
    Keyed.key (revokeRow now m) = Keyed.key m :=
  rfl

def revokeOverrideRow (now : Time) (r : OverrideRow) : OverrideRow :=
  { r with revokedAt := some now }

theorem key_revokeOverrideRow (now : Time) (r : OverrideRow) :
    Keyed.key (revokeOverrideRow now r) = Keyed.key r :=
  rfl

def revoke (db : StaffDb) (userId : String) (now : Time) : StaffDb :=
  { db with
    members := db.members.update (fun m => m.userId = userId) (revokeRow now)
      (key_revokeRow now)
    overrides := db.overrides.update (fun r => r.userId = userId && r.revokedAt = none)
      (revokeOverrideRow now) (key_revokeOverrideRow now) }

/-- The insertion fails if the fresh id is taken, and the transaction with it. -/
def replaceOverride (db : StaffDb) (id userId : String) (permission : StaffPermission)
    (effect : Effect) (expiresAt : Option Time) (createdBy : String) (now : Time) :
    Option StaffDb := do
  let revoked := db.overrides.update
    (fun r => r.userId = userId && r.permission = permission.text && r.revokedAt = none)
    (revokeOverrideRow now) (key_revokeOverrideRow now)
  let overrides ← revoked.insert
    ⟨id, userId, permission.text, effect, some createdBy, expiresAt, none⟩
  some { db with overrides := overrides }

/-- The database without the override, and the override if it was there. -/
def revokeOverride (db : StaffDb) (userId overrideId : String) (now : Time) :
    StaffDb × Option StaffPermissionOverride :=
  let chosen := fun r : OverrideRow =>
    r.id = overrideId && r.userId = userId && r.revokedAt = none
  ({ db with
      overrides := db.overrides.update chosen (revokeOverrideRow now)
        (key_revokeOverrideRow now) },
    (db.overrides.rows.find? chosen).bind overrideOf)

/-- `UPDATE "user" … WHERE id = userId`. -/
def updateUser (db : StaffDb) (userId : String) (f : UserRow → UserRow)
    (hf : ∀ u, Keyed.key (f u) = Keyed.key u) : StaffDb :=
  { db with users := db.users.update (fun u => u.id = userId) f hf }

def banRow (expiresAt : Option Time) (u : UserRow) : UserRow :=
  { u with banned := some true, banExpires := expiresAt }

theorem key_banRow (expiresAt : Option Time) (u : UserRow) :
    Keyed.key (banRow expiresAt u) = Keyed.key u :=
  rfl

/-- `none` when there is no such user. -/
def ban (db : StaffDb) (userId : String) (expiresAt : Option Time) : Option StaffDb :=
  if (db.users.find? userId).isSome then
    some (updateUser db userId (banRow expiresAt) (key_banRow expiresAt))
  else none

end CleanStack.Admin
