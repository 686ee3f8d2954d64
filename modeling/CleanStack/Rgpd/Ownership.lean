import CleanStack.Rgpd.AccountDeletion

/-!
# Organizations and account deletion

The organizations a user belongs to, as a deletion sees them: the request is
refused while the user is the only owner of an organization that has other
members, and the wipe removes the user's memberships, then the organizations
that are personal or left without members, whose other rows go with them.

A user may hold two memberships of one organization; no index forbids it.

`ownershipStep` runs the memberships beside the account deletions of
`accountStep`: a request is now given the organizations the code looks up, and
a wipe also does its part on the organizations, in the same transaction.

The program tells an owner in two ways. The queries here compare the role with
`owner`; the projection of a directory takes a role for a list.
-/

namespace CleanStack.Rgpd

open CleanStack.Lib CleanStack.Drizzle CleanStack.AccessControl CleanStack.Admin

structure OrganizationRow where
  id : String
  name : String
  slug : String
  deriving DecidableEq, Repr

structure MemberRow where
  id : String
  organizationId : String
  userId : String
  role : String
  deriving DecidableEq, Repr

instance : Keyed OrganizationRow String := ⟨OrganizationRow.id⟩
instance : Keyed MemberRow String := ⟨MemberRow.id⟩

structure OrgDb where
  organizations : Table OrganizationRow
  members : Table MemberRow

def PERSONAL_ORG_SLUG_PREFIX : String := "personal-"

/-- `slug LIKE 'personal-%'`. -/
def isPersonalOrgSlug (slug : String) : Bool :=
  PERSONAL_ORG_SLUG_PREFIX.toList.isPrefixOf slug.toList

def membersOf (db : OrgDb) (orgId : String) : List MemberRow :=
  db.members.rows.filter fun m => m.organizationId = orgId

def isOwner (m : MemberRow) : Bool := m.role = "owner"

def holdsOwnerRole (role : String) : Bool := (role.splitOn ",").contains "owner"

/-- How an owner is told. -/
inductive OwnerRule
  | exact
  | listed
  deriving DecidableEq

def OwnerRule.owns : OwnerRule → MemberRow → Bool
  | .exact, m => isOwner m
  | .listed, m => holdsOwnerRole m.role

/-! ## The check of a request -/

structure SoleOwnedOrgWithMembers where
  orgId : String
  orgName : String
  otherMembersCount : Nat
  deriving DecidableEq, Repr

/-- The organization of a membership, when the membership stands in the way. -/
def soleOwned (db : OrgDb) (userId : String) (m : MemberRow) :
    Option SoleOwnedOrgWithMembers :=
  match db.organizations.find? m.organizationId with
  | none => none
  | some o =>
      let memberCount := (membersOf db o.id).length
      if decide (m.userId = userId) && isOwner m && !isPersonalOrgSlug o.slug &&
          decide (((membersOf db o.id).filter isOwner).length = 1) && decide (memberCount > 1) then
        some ⟨o.id, o.name, memberCount - 1⟩
      else none

def findSoleOwnedNonPersonalOrgsWithMembers (db : OrgDb) (userId : String) :
    List SoleOwnedOrgWithMembers :=
  db.members.rows.filterMap (soleOwned db userId)

/-! ## The wipe -/

structure OrgWipe where
  db : OrgDb
  deletedOrgIds : List String
  removedMemberships : List MemberRow

def membershipsOf (db : OrgDb) (userId : String) : List MemberRow :=
  db.members.rows.filter fun m => m.userId = userId

def withoutMember (db : OrgDb) (userId : String) : OrgDb :=
  { db with members := db.members.delete fun m => m.userId = userId }

/-- The condition of the wipe's `DELETE FROM organization`, after the user's
memberships are gone. -/
def deletedByWipe (db : OrgDb) (userId : String) (o : OrganizationRow) : Bool :=
  ((membershipsOf db userId).map MemberRow.organizationId).contains o.id &&
    (isPersonalOrgSlug o.slug || decide ((membersOf (withoutMember db userId) o.id).length = 0))

def deletedOrgIds (db : OrgDb) (userId : String) : List String :=
  (db.organizations.rows.filter (deletedByWipe db userId)).map OrganizationRow.id

/-- The part of `executeWipe` that concerns organizations. -/
def wipeOrganizations (db : OrgDb) (userId : String) : OrgWipe where
  db :=
    { organizations := db.organizations.delete (deletedByWipe db userId)
      members := (withoutMember db userId).members.delete fun m =>
        (deletedOrgIds db userId).contains m.organizationId }
  deletedOrgIds := deletedOrgIds db userId
  removedMemberships := (membershipsOf db userId).filter fun m =>
    !(deletedOrgIds db userId).contains m.organizationId

/-! ## Memberships and deletions side by side -/

structure OwnershipState where
  account : AccountState
  orgs : OrgDb

inductive OwnershipEvent
  | account (e : AccountEvent)
  | join (m : MemberRow)
  | leave (memberId : String)
  | changeRole (memberId : String) (role : String)

/-- There is an owner among the members, if there are members. -/
def ownedOrEmpty (rule : OwnerRule) (db : OrgDb) (orgId : String) : Bool :=
  (membersOf db orgId).isEmpty || (membersOf db orgId).any rule.owns

/-- A change of the memberships of one organization is allowed when it keeps an
owner among them. -/
def OwnershipState.change (rule : OwnerRule) (s : OwnershipState) (orgId : String)
    (members : Table MemberRow) : Option OwnershipState :=
  if ownedOrEmpty rule { s.orgs with members } orgId then
    some { s with orgs := { s.orgs with members } }
  else none

def roleRow (role : String) (m : MemberRow) : MemberRow := { m with role }

/-- The user whose wipe the step commits. -/
def committedWipe (s : OwnershipState) : OwnershipEvent → Option String
  | .account (.wipe i) =>
      match s.account.sweeps[i]?.bind Sweep.reading with
      | none => none
      | some (userId, _) =>
          if (executeWipe s.account.db userId s.account.clock).2 then none else some userId
  | _ => none

/-- What a request is confirmed with, the organizations being those it finds. -/
def foundBlocking (db : OrgDb) : AccountEvent → AccountEvent
  | .beginRequest userId c =>
      .beginRequest userId
        { c with
          blockingOrgs := (findSoleOwnedNonPersonalOrgsWithMembers db userId).map (·.orgId) }
  | e => e

def ownershipStep (rule : OwnerRule) (env : StaffEnv) (settings : RgpdSettings)
    (s : OwnershipState) (e : OwnershipEvent) : Option OwnershipState :=
  match e with
  | .account accountEvent =>
      (accountStep env settings s.account (foundBlocking s.orgs accountEvent)).map fun account =>
        { account
          orgs :=
            match committedWipe s e with
            | none => s.orgs
            | some userId => (wipeOrganizations s.orgs userId).db }
  | .join m =>
      if (s.orgs.organizations.find? m.organizationId).isSome &&
          (s.account.db.users.find? m.userId).isSome then
        (s.orgs.members.insert m).bind (s.change rule m.organizationId)
      else none
  | .leave memberId =>
      match s.orgs.members.find? memberId with
      | none => none
      | some m => s.change rule m.organizationId (s.orgs.members.delete fun x => x.id = memberId)
  | .changeRole memberId role =>
      match s.orgs.members.find? memberId with
      | none => none
      | some m =>
          s.change rule m.organizationId
            (s.orgs.members.update (fun x => x.id = memberId) (roleRow role) fun _ => rfl)

end CleanStack.Rgpd
