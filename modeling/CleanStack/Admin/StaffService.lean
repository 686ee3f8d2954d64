import CleanStack.Admin.StaffStore

/-!
# Changing staff access

The operations of the staff service. An operation is one transaction, so it is
a function from the database to the database it commits or to the error it is
rolled back with. The checks made before the transaction read nothing that can
change, and are part of the same function.
-/

namespace CleanStack.Admin

open CleanStack.Drizzle CleanStack.AccessControl

structure AppError where
  code : String
  message : String
  deriving DecidableEq, Repr

def notStaff : AppError := ⟨"ADMIN_STAFF_NOT_FOUND", "Not a staff member."⟩

def grantNotHeld : AppError :=
  ⟨"ADMIN_STAFF_GRANT_NOT_HELD_FORBIDDEN",
    "Nobody gives a permission they do not hold themselves."⟩

def overrideNotFound : AppError :=
  ⟨"ADMIN_STAFF_OVERRIDE_NOT_FOUND", "This permission change no longer exists."⟩

def lastManager : AppError :=
  ⟨"ADMIN_STAFF_LAST_MANAGER_FORBIDDEN", "The last manager cannot lose access."⟩

def selfChange : AppError :=
  ⟨"ADMIN_STAFF_SELF_CHANGE_FORBIDDEN", "Nobody changes their own access."⟩

def listedChange : AppError :=
  ⟨"ADMIN_STAFF_LISTED_FORBIDDEN",
    "This access comes from PLATFORM_ADMIN_IDS and changes there."⟩

def roleChanged : AppError :=
  ⟨"ADMIN_STAFF_ROLE_CHANGED_CONFLICT",
    "This person's access changed since the request was made. Ask again."⟩

def overrideExpired : AppError :=
  ⟨"ADMIN_STAFF_OVERRIDE_EXPIRED_CONFLICT",
    "The end date of this change has passed. Ask again with a later date."⟩

def userNotFound : AppError := ⟨"ADMIN_USER_NOT_FOUND", "User not found."⟩

def staffTarget : AppError :=
  ⟨"ADMIN_USER_STAFF_TARGET_FORBIDDEN",
    "Only someone who manages the staff can act on a staff member."⟩

def selfBan : AppError :=
  ⟨"ADMIN_USER_SELF_BAN_FORBIDDEN", "You cannot ban your own account."⟩

def overrideWriteFailed : AppError :=
  ⟨"ADMIN_STAFF_PROVIDER_FAILURE", "staff override write failed"⟩

/-- Who makes a change, with what permissions, and to whom. -/
structure StaffChange where
  actorUserId : String
  actorPermissions : List StaffPermission
  targetUserId : String

/-! ## Refusals -/

section Service

variable (env : StaffEnv)

def refusedChange (input : StaffChange) : Option AppError :=
  if input.actorUserId = input.targetUserId then some selfChange
  else if env.isListed input.targetUserId then some listedChange
  else none

def refusedRoleGrant (input : StaffChange) (role : StaffRole) : Option AppError :=
  match refusedChange env input with
  | some error => some error
  | none =>
      if (permissionsOfRole role).any fun p => !input.actorPermissions.contains p then
        some grantNotHeld
      else none

def refusedOverrideGrant (actorPermissions : List StaffPermission)
    (permission : StaffPermission) (effect : Effect) (liftsOverride : Bool) :
    Option AppError :=
  let gives := if liftsOverride then effect = .deny else effect = .grant
  if gives && !actorPermissions.contains permission then some grantNotHeld else none

def grantingRow (db : StaffDb) (userId : String) (now : Time) : Option StaffRecord :=
  (findActive db userId now).filter fun row => grantsStaffAccess row.userId row.source env

variable (db : StaffDb) (now : Time)

/-! ## Roles -/

def add (input : StaffChange) (role : StaffRole) : Except AppError StaffDb :=
  if (db.users.find? input.targetUserId).isNone then .error userNotFound
  else .ok (assign db input.targetUserId role input.actorUserId now)

/-- `expectedRole` is `some none` for an explicit `null`. -/
def assignRole (input : StaffChange) (role : StaffRole)
    (expectedRole : Option (Option StaffRole)) : Except AppError StaffDb :=
  match refusedRoleGrant env input role with
  | some error => .error error
  | none =>
      let found := grantingRow env db input.targetUserId now
      let current := found.map (·.role)
      if expectedRole.any fun expected => expected ≠ current then .error roleChanged
      else
        match found with
        | none => add db now input role
        | some row =>
            if row.role = role then .ok db
            else if row.role = .manager &&
                isLastManager input.targetUserId (lockActiveManagers db now) env then
              .error lastManager
            else .ok (assign db input.targetUserId role input.actorUserId now)

def revocableRole (input : StaffChange) : Except AppError StaffRole :=
  match grantingRow env db input.targetUserId now with
  | none => .error notStaff
  | some row =>
      if row.role = .manager &&
          isLastManager input.targetUserId (lockActiveManagers db now) env then
        .error lastManager
      else .ok row.role

def revokeStaff (input : StaffChange) : Except AppError StaffDb :=
  match refusedChange env input with
  | some error => .error error
  | none =>
      match revocableRole env db now input with
      | .error error => .error error
      | .ok _ => .ok (revoke db input.targetUserId now)

/-! ## Overrides -/

structure OverrideChange where
  permission : StaffPermission
  effect : Effect
  expiresAt : Option Time

def overrideRefusal (input : StaffChange) (change : OverrideChange) : Option AppError :=
  match refusedChange env input with
  | some error => some error
  | none =>
      if change.effect = .grant && !input.actorPermissions.contains change.permission then
        some grantNotHeld
      else if change.expiresAt.any fun expiresAt => expiresAt ≤ now then some overrideExpired
      else
        match grantingRow env db input.targetUserId now with
        | none => some notStaff
        | some row =>
            let losesManagement := change.effect = .deny &&
              change.permission = .staffManage && row.role = .manager &&
              (permissionsOfRecord row now).contains .staffManage
            if losesManagement &&
                isLastManager input.targetUserId (lockActiveManagers db now) env then
              some lastManager
            else none

/-- `id` is the fresh id of the new override. -/
def setOverride (id : String) (input : StaffChange) (change : OverrideChange) :
    Except AppError StaffDb :=
  match overrideRefusal env db now input change with
  | some error => .error error
  | none =>
      match replaceOverride db id input.targetUserId change.permission change.effect
          change.expiresAt input.actorUserId now with
      | none => .error overrideWriteFailed
      | some db => .ok db

def removeOverride (input : StaffChange) (overrideId : String) :
    Except AppError StaffDb :=
  match refusedChange env input with
  | some error => .error error
  | none =>
      match revokeOverride db input.targetUserId overrideId now with
      | (_, none) => .error overrideNotFound
      | (db, some removed) =>
          match refusedOverrideGrant input.actorPermissions removed.permission
              removed.effect true with
          | some error => .error error
          | none => .ok db

/-! ## Bans -/

def banRefusal (input : StaffChange) : Option AppError :=
  let target := grantingRow env db input.targetUserId now
  let targetIsStaff := env.isListed input.targetUserId || target.isSome
  if targetIsStaff && !input.actorPermissions.contains .staffManage then some staffTarget
  else
    let isManager := env.isListed input.targetUserId ||
      target.any fun row => row.role = .manager
    if isManager && isLastManager input.targetUserId (lockActiveManagers db now) env then
      some lastManager
    else none

/-- A ban through `moderateBan`, the two services in one transaction. `expiresIn`
is in seconds. -/
def moderateBan (input : StaffChange) (expiresIn : Option Nat) : Except AppError StaffDb :=
  match banRefusal env db now input with
  | some error => .error error
  | none =>
      if input.actorUserId = input.targetUserId then .error selfBan
      else
        -- a duration of zero is no duration
        let expiresAt := (expiresIn.filter fun n => n ≠ 0).map (secondsFromNow now)
        match ban db input.targetUserId expiresAt with
        | none => .error userNotFound
        | some db => .ok db

end Service

/-! ## Operations as data -/

inductive StaffOperation
  | assignRole (role : StaffRole) (expectedRole : Option (Option StaffRole))
  | revoke
  | setOverride (id : String) (change : OverrideChange)
  | removeOverride (overrideId : String)

def StaffOperation.run (env : StaffEnv) (db : StaffDb) (now : Time) (input : StaffChange) :
    StaffOperation → Except AppError StaffDb
  | .assignRole role expectedRole => Admin.assignRole env db now input role expectedRole
  | .revoke => revokeStaff env db now input
  | .setOverride id change => Admin.setOverride env db now id input change
  | .removeOverride overrideId => Admin.removeOverride env db now input overrideId

end CleanStack.Admin
