import CleanStack.Drizzle.Lease
import CleanStack.Lib.Runs
import CleanStack.Rgpd.Ownership

/-!
# API tokens of an organization

A token is created in two transactions: the route checks that the user may
create one in the organization, and the service inserts the row. When a member
goes, the event that says so is handled some time later, perhaps more than once,
by revoking whatever tokens the user has in the organization then.

Users join and leave, requests and handlers run in any order. Besides the
tables the state keeps two things that are written nowhere: how many times a
user has become a member, and during which of these memberships a token was
inserted.
-/

namespace CleanStack.ApiToken

open CleanStack.Lib CleanStack.Drizzle
open CleanStack.Admin (AppError)
open CleanStack.Rgpd (MemberRow)

inductive ApiTokenRevokedReason
  | user
  | membershipLost
  | leaked
  deriving DecidableEq, Repr

structure ApiTokenRow where
  id : String
  userId : String
  organizationId : Option String
  revokedAt : Option Time
  revokedReason : Option ApiTokenRevokedReason
  deriving DecidableEq

instance : Keyed ApiTokenRow String := ⟨fun r => r.id⟩

abbrev ApiTokenTable := Table ApiTokenRow

def revokedSet (now : Time) (reason : ApiTokenRevokedReason) (r : ApiTokenRow) : ApiTokenRow :=
  { r with revokedAt := some now, revokedReason := some reason }

theorem revokedSet_id (now : Time) (reason : ApiTokenRevokedReason) (r : ApiTokenRow) :
    Keyed.key (revokedSet now reason r) = Keyed.key r :=
  rfl

def revokeToken (t : ApiTokenTable) (now : Time) (id : String) (reason : ApiTokenRevokedReason) :
    ApiTokenTable :=
  t.update (fun r => r.id = id && r.revokedAt.isNone) (revokedSet now reason)
    (revokedSet_id now reason)

def ofMembership (userId organizationId : String) (r : ApiTokenRow) : Bool :=
  r.userId = userId && r.organizationId = some organizationId && r.revokedAt.isNone

/-- The rows after the statement, and the ids it returns. -/
def revokeAllForMembership (t : ApiTokenTable) (now : Time) (userId organizationId : String) :
    ApiTokenTable × List String :=
  (t.update (ofMembership userId organizationId) (revokedSet now .membershipLost)
      (revokedSet_id now .membershipLost),
    (t.returning (ofMembership userId organizationId) (revokedSet now .membershipLost)).map
      ApiTokenRow.id)

/-! ## Creation -/

/-- What a guard of the route throws. -/
inductive Refusal
  | app (error : AppError)
  | http (status : Nat) (message : String)
  deriving DecidableEq

def tokenOrganizationNotFound : AppError :=
  ⟨"API_TOKEN_ORGANIZATION_NOT_FOUND",
    "Switch to this organization before creating a token for it."⟩

def expiryInvalid (maxExpiryDays : Nat) : AppError :=
  ⟨"API_TOKEN_EXPIRY_INVALID", "Expiry cannot exceed " ++ toString maxExpiryDays ++ " days."⟩

/-- The role of a member, where it is one of the known ones. -/
def orgRoleOf (members : Table MemberRow) (userId organizationId : String) : Option String :=
  ((members.rows.find? fun m => m.organizationId = organizationId && m.userId = userId).map
    MemberRow.role).filter fun role => ["owner", "admin", "member"].contains role

/-- The roles with the permission to create a token. -/
def createsTokens (role : String) : Bool := ["owner", "admin"].contains role

/-- The checks of the route. -/
def requireTokenCreation (members : Table MemberRow) (userId : String)
    (activeOrgId organizationId : Option String) : Except Refusal Unit :=
  match organizationId with
  | none => .ok ()
  | some orgId =>
      if activeOrgId = some orgId then
        match orgRoleOf members userId orgId with
        | none => .error (.http 403 "No active organization")
        | some role =>
            if createsTokens role then .ok () else .error (.http 403 "Insufficient permission")
      else .error (.app tokenOrganizationNotFound)

/-- The row that is inserted. -/
def createToken (maxExpiryDays : Nat) (id userId : String) (organizationId : Option String)
    (expiresInDays : Option Nat) : Except AppError ApiTokenRow :=
  if expiresInDays.any fun days => maxExpiryDays < days then .error (expiryInvalid maxExpiryDays)
  else .ok ⟨id, userId, organizationId, none, none⟩

/-! ## Members, requests and handlers side by side -/

/-- `ORG_MEMBER_REMOVED`, and whether a handler has run for it. -/
structure Departure where
  memberId : String
  userId : String
  organizationId : String
  actorUserId : String
  handled : Bool
  deriving DecidableEq

/-- A request that has passed the checks of the route. -/
structure TokenRequest where
  userId : String
  organizationId : Option String
  deriving DecidableEq

/-- `API_TOKEN_REVOKED`. -/
structure TokenRevocation where
  tokenId : String
  userId : String
  actorUserId : String
  organizationId : String
  reason : ApiTokenRevokedReason
  deriving DecidableEq

structure TokenState where
  members : Table MemberRow
  tokens : ApiTokenTable
  departures : List Departure
  requests : List TokenRequest
  revocations : List TokenRevocation
  /-- How many times the user has become a member. -/
  memberships : String → String → Nat
  /-- The membership a token was inserted in. -/
  insertedIn : String → Option Nat

inductive TokenEvent
  | join (row : MemberRow)
  | leave (memberId actorUserId : String)
  | request (userId : String) (activeOrgId organizationId : Option String)
  | create (k : Nat) (tokenId : String) (expiresInDays : Option Nat)
  | revoke (now : Time) (tokenId : String) (reason : ApiTokenRevokedReason)
  /-- The handler of a departure runs, for the first time or again. -/
  | handle (i : Nat) (now : Time)

def isMember (members : Table MemberRow) (userId organizationId : String) : Bool :=
  members.rows.any fun m => m.userId = userId && m.organizationId = organizationId

/-- The membership the user is in, if any. -/
def TokenState.membership (s : TokenState) (userId organizationId : String) : Option Nat :=
  if isMember s.members userId organizationId then some (s.memberships userId organizationId)
  else none

/-- One more membership, unless the user is a member already. -/
def joined (s : TokenState) (userId organizationId : String) : String → String → Nat :=
  fun u o =>
    if u = userId ∧ o = organizationId ∧ ¬ isMember s.members u o then s.memberships u o + 1
    else s.memberships u o

def revocationOf (d : Departure) (tokenId : String) : TokenRevocation :=
  ⟨tokenId, d.userId, d.actorUserId, d.organizationId, .membershipLost⟩

variable (maxExpiryDays : Nat)

def tokenStep (s : TokenState) : TokenEvent → Option TokenState
  | .join row =>
      (s.members.insert row).map fun members =>
        { s with members, memberships := joined s row.userId row.organizationId }
  | .leave memberId actorUserId =>
      (s.members.find? memberId).map fun row =>
        { s with
          members := s.members.delete fun m => m.id = memberId
          departures := s.departures ++
            [⟨memberId, row.userId, row.organizationId, actorUserId, false⟩] }
  | .request userId activeOrgId organizationId =>
      match requireTokenCreation s.members userId activeOrgId organizationId with
      | .ok _ => some { s with requests := s.requests ++ [⟨userId, organizationId⟩] }
      | .error _ => some s
  | .create k tokenId expiresInDays =>
      s.requests[k]?.bind fun request =>
        match createToken maxExpiryDays tokenId request.userId request.organizationId
            expiresInDays with
        | .error _ => some s
        | .ok row =>
            (s.tokens.insert row).map fun tokens =>
              { s with
                tokens
                insertedIn := fun id =>
                  if id = tokenId then
                    request.organizationId.bind fun o => s.membership request.userId o
                  else s.insertedIn id }
  | .revoke now tokenId reason =>
      if reason = .membershipLost then none
      else some { s with tokens := revokeToken s.tokens now tokenId reason }
  | .handle i now =>
      s.departures[i]?.map fun d =>
        let (tokens, revoked) := revokeAllForMembership s.tokens now d.userId d.organizationId
        { s with
          tokens
          departures := s.departures.set i { d with handled := true }
          revocations := s.revocations ++ revoked.map (revocationOf d) }

end CleanStack.ApiToken
