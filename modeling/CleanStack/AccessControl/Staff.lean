import CleanStack.Drizzle.Lease

/-!
# Staff roles and permissions

A role stands for a list of permissions, and overrides grant or deny single
permissions to one person, for ever or until a date. What a person may do at a
moment is `effectivePermissions`: the role's permissions and the live grants,
less the live denials.

Roles and permissions are stored as text. The columns take any text, so they
are parsed where a row is read.
-/

namespace CleanStack.AccessControl

open CleanStack.Drizzle (Time)

inductive StaffRole
  | manager
  | support
  | auditor
  deriving DecidableEq, Repr

inductive StaffPermission
  | usersRead
  | usersModerate
  | usersRole
  | usersDelete
  | usersImpersonate
  | orgsRead
  | orgsSso
  | notesWrite
  | auditRead
  | opsRead
  | opsManage
  | billingOverride
  | approvalsDecide
  | staffManage
  deriving DecidableEq, Repr

inductive Effect
  | grant
  | deny
  deriving DecidableEq, Repr

structure StaffPermissionOverride where
  permission : StaffPermission
  effect : Effect
  expiresAt : Option Time
  deriving DecidableEq, Repr

def STAFF_ROLES : List StaffRole := [.manager, .support, .auditor]

def STAFF_PERMISSIONS : List StaffPermission :=
  [.usersRead, .usersModerate, .usersRole, .usersDelete, .usersImpersonate, .orgsRead,
    .orgsSso, .notesWrite, .auditRead, .opsRead, .opsManage, .billingOverride,
    .approvalsDecide, .staffManage]

def StaffRole.text : StaffRole → String
  | .manager => "manager"
  | .support => "support"
  | .auditor => "auditor"

def StaffPermission.text : StaffPermission → String
  | .usersRead => "users.read"
  | .usersModerate => "users.moderate"
  | .usersRole => "users.role"
  | .usersDelete => "users.delete"
  | .usersImpersonate => "users.impersonate"
  | .orgsRead => "orgs.read"
  | .orgsSso => "orgs.sso"
  | .notesWrite => "notes.write"
  | .auditRead => "audit.read"
  | .opsRead => "ops.read"
  | .opsManage => "ops.manage"
  | .billingOverride => "billing.override"
  | .approvalsDecide => "approvals.decide"
  | .staffManage => "staff.manage"

/-- `isStaffRole`, and the role it narrows to. -/
def toStaffRole? (value : String) : Option StaffRole :=
  STAFF_ROLES.find? fun role => role.text = value

/-- `isStaffPermission`, and the permission it narrows to. -/
def toStaffPermission? (value : String) : Option StaffPermission :=
  STAFF_PERMISSIONS.find? fun permission => permission.text = value

theorem toStaffRole?_text (role : StaffRole) : toStaffRole? role.text = some role := by
  cases role <;> decide

theorem toStaffPermission?_text (permission : StaffPermission) :
    toStaffPermission? permission.text = some permission := by
  cases permission <;> decide

theorem toStaffPermission?_eq_some {value : String} {permission : StaffPermission} :
    toStaffPermission? value = some permission ↔ value = permission.text := by
  constructor
  · intro h
    have htext := List.find?_some h
    exact (of_decide_eq_true htext).symm
  · rintro rfl
    exact toStaffPermission?_text permission

theorem toStaffRole?_eq_some {value : String} {role : StaffRole} :
    toStaffRole? value = some role ↔ value = role.text := by
  constructor
  · intro h
    have htext := List.find?_some h
    exact (of_decide_eq_true htext).symm
  · rintro rfl
    exact toStaffRole?_text role

def permissionsOfRole : StaffRole → List StaffPermission
  | .manager => STAFF_PERMISSIONS
  | .support => [.usersRead, .usersModerate, .usersImpersonate, .orgsRead, .notesWrite]
  | .auditor => [.usersRead, .orgsRead, .auditRead, .opsRead]

/-- The actions two people may have to agree on. -/
inductive ApprovalAction
  | userBanPermanent
  | staffRoleChange
  | staffRevoke
  | staffPermissionOverride
  deriving DecidableEq, Repr

def APPROVAL_ACTION_PERMISSION : ApprovalAction → StaffPermission
  | .userBanPermanent => .usersModerate
  | .staffRoleChange => .staffManage
  | .staffRevoke => .staffManage
  | .staffPermissionOverride => .staffManage

def isLive (now : Time) (o : StaffPermissionOverride) : Bool :=
  match o.expiresAt with
  | none => true
  | some expiresAt => now < expiresAt

def effectivePermissions (role : StaffRole) (overrides : List StaffPermissionOverride)
    (now : Time) : List StaffPermission :=
  let live := overrides.filter (isLive now)
  let denied := (live.filter fun o => o.effect = .deny).map (·.permission)
  let granted := permissionsOfRole role ++
    (live.filter fun o => o.effect = .grant).map (·.permission)
  STAFF_PERMISSIONS.filter fun p => granted.contains p && !denied.contains p

theorem mem_STAFF_PERMISSIONS (p : StaffPermission) : p ∈ STAFF_PERMISSIONS := by
  cases p <;> decide

/-- An override of the list with this effect on `p` is live. -/
def HasLive (effect : Effect) (overrides : List StaffPermissionOverride) (now : Time)
    (p : StaffPermission) : Prop :=
  ∃ o ∈ overrides, isLive now o = true ∧ o.effect = effect ∧ o.permission = p

theorem mem_effectivePermissions {role : StaffRole}
    {overrides : List StaffPermissionOverride} {now : Time} {p : StaffPermission} :
    p ∈ effectivePermissions role overrides now ↔
      (p ∈ permissionsOfRole role ∨ HasLive .grant overrides now p) ∧
        ¬ HasLive .deny overrides now p := by
  simp only [effectivePermissions, List.mem_filter, mem_STAFF_PERMISSIONS, true_and,
    Bool.and_eq_true, Bool.not_eq_true', List.contains_eq_mem, decide_eq_true_eq,
    decide_eq_false_iff_not, List.mem_append, List.mem_map, HasLive, and_assoc]

end CleanStack.AccessControl
