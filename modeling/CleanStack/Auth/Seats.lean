import CleanStack.Lib.Overlay
import CleanStack.Rgpd.Ownership

/-!
# Seats of an organization

Three paths create a member: an invitation that is accepted, a direct add, and
the SCIM projection. All of them ask `seatCapFor`, which reads the plan, counts
the members and answers whether a seat is left. On the first two the question is
asked by a hook that runs before BetterAuth inserts the row, and neither shares a
transaction with the insert. The projection runs inside the plugin's
transaction, where `seatCapFor` first takes a lock of the organization that the
transaction keeps until it ends.

Every call is cut at its statements, so that any number of them interleave. A
transaction is known by its position among the ones that were opened, and sees
the committed members with its own writes over them.
-/

namespace CleanStack.Auth

open CleanStack.Lib CleanStack.Rgpd

/-! ## Plans -/

inductive Feature
  | audit_log
  | api
  | sso
  deriving DecidableEq, Repr

/-- What the seat checks read of `EntitlementsView`. -/
structure EntitlementsView where
  features : List Feature
  maxMembers : Option Nat
  deriving DecidableEq, Repr

inductive Tier
  | free
  | pro
  | business
  deriving DecidableEq, Repr

def ENTITLEMENTS : Tier → EntitlementsView
  | .free => ⟨[], some 3⟩
  | .pro => ⟨[.audit_log, .api], some 20⟩
  | .business => ⟨[.audit_log, .api, .sso], none⟩

def hasFeature (view : EntitlementsView) (flag : Feature) : Bool := view.features.contains flag

/-- `maxMembers` is `null` where the plan has no cap. -/
def hasSeatAvailable (activeMembers : Nat) (maxMembers : Option Nat) : Bool :=
  match maxMembers with
  | none => true
  | some m => decide (activeMembers < m)

/-! ## Refusals -/

structure APIError where
  status : Nat
  code : String
  message : String
  deriving DecidableEq, Repr

structure SeatCap where
  available : Bool
  activeMembers : Nat
  maxMembers : Option Nat
  deriving DecidableEq, Repr

/-- `${maxMembers ?? "∞"}`. -/
def shownCap : Option Nat → String
  | none => "∞"
  | some m => toString m

def ORGANIZATION_SEAT_PAYMENT_REQUIRED : String := "ORGANIZATION_SEAT_PAYMENT_REQUIRED"

/-- What the hook throws on the answer of `seatCapFor`, if it throws. -/
def organizationSeatGate (cap : SeatCap) : Option APIError :=
  if cap.available then none
  else
    some
      { status := 402
        code := ORGANIZATION_SEAT_PAYMENT_REQUIRED
        message := "Seat limit reached (" ++ shownCap cap.maxMembers ++
          "). Upgrade the plan or remove a member, then retry." }

def planRequired : APIError where
  status := 403
  code := "SCIM_PLAN_REQUIRED"
  message := "This organization's plan no longer includes directory provisioning. Users can " ++
    "still be deactivated or removed; upgrade the plan to add new ones."

def scimSeatLimitReached (cap : SeatCap) : APIError where
  status := 402
  code := "SCIM_SEAT_LIMIT_REACHED"
  message := "Seat limit reached (" ++ shownCap cap.maxMembers ++
    "). Free a seat or upgrade the plan, then retry the provisioning."

/-! ## The state -/

/-- A call of `seatCapFor`, by the statement it runs next. -/
inductive SeatCapCall
  | entering
  | locking (maxMembers : Option Nat)
  | counting (maxMembers : Option Nat)
  deriving DecidableEq, Repr

/-- The hooks that ask for a seat. -/
inductive HookPath
  | addMember
  | createInvitation
  | acceptInvitation
  deriving DecidableEq, Repr

/-- Whether a member is inserted after the hook. -/
def HookPath.joins : HookPath → Bool
  | .createInvitation => false
  | _ => true

inductive HookPhase
  | checking (call : SeatCapCall)
  | passed
  | ended (error : Option APIError)
  deriving DecidableEq, Repr

structure HookRequest where
  path : HookPath
  organizationId : String
  userId : String
  role : String
  phase : HookPhase
  deriving DecidableEq, Repr

/-- Where a transaction of the SCIM plugin is: between two calls of the
projection, in one, or over. -/
inductive ScimPhase
  | idle
  | entitling (organizationId userId : String)
  | checking (organizationId userId : String) (call : SeatCapCall)
  | adding (organizationId userId : String)
  | ended (error : Option APIError)
  deriving DecidableEq, Repr

structure Provisioning where
  writes : Writes MemberRow
  phase : ScimPhase

structure SeatState where
  members : List MemberRow
  /-- What `getEntitlements` answers. -/
  plan : String → EntitlementsView
  /-- The transaction that holds an advisory lock. -/
  locks : String → Option Nat
  hooks : List HookRequest
  provisionings : List Provisioning

def SeatState.setHook (s : SeatState) (i : Nat) (r : HookRequest) : SeatState :=
  { s with hooks := s.hooks.set i r }

def SeatState.setProvisioning (s : SeatState) (t : Nat) (p : Provisioning) : SeatState :=
  { s with provisionings := s.provisionings.set t p }

/-- The members a statement sees on the pool, or on the ambient transaction. -/
def membersSeen (s : SeatState) : Option Nat → List MemberRow
  | none => s.members
  | some t =>
      match s.provisionings[t]? with
      | none => s.members
      | some p => p.writes.view s.members

def memberOfOrg (organizationId : String) (m : MemberRow) : Bool :=
  m.organizationId = organizationId

/-- The members of an organization among some rows. -/
def seatsIn (organizationId : String) (rows : List MemberRow) : Nat :=
  rows.countP (memberOfOrg organizationId)

/-! ## seatCapFor -/

def countActiveMembers (s : SeatState) (ambient : Option Nat) (organizationId : String) : Nat :=
  seatsIn organizationId (membersSeen s ambient)

def seatLockKey (organizationId : String) : String := "seats:" ++ organizationId

/-- Waits while another transaction holds the lock. -/
def lockSeatsOf (s : SeatState) (t : Nat) (organizationId : String) : Option SeatState :=
  if s.locks (seatLockKey organizationId) = none ∨ s.locks (seatLockKey organizationId) = some t then
    some
      { s with
        locks := fun key => if key = seatLockKey organizationId then some t else s.locks key }
  else none

/-- The next statement of a call, and what the call is then: under way, or
answered. -/
def seatCapFor (s : SeatState) (ambient : Option Nat) (orgId : String) :
    SeatCapCall → Option (SeatState × (SeatCapCall ⊕ SeatCap))
  | .entering =>
      let view := s.plan orgId
      some (s, .inl (if ambient.isSome then .locking view.maxMembers
        else .counting view.maxMembers))
  | .locking maxMembers =>
      match ambient with
      | none => none
      | some t => (lockSeatsOf s t orgId).map fun s' => (s', .inl (.counting maxMembers))
  | .counting maxMembers =>
      let activeMembers := countActiveMembers s ambient orgId
      some (s, .inr ⟨hasSeatAvailable activeMembers maxMembers, activeMembers, maxMembers⟩)

/-! ## The hooks -/

/-- The next statement of the hook of a request. -/
def hookNext (s : SeatState) (i : Nat) (r : HookRequest) : Option SeatState :=
  match r.phase with
  | .checking call =>
      (seatCapFor s none r.organizationId call).map fun
        | (s', .inl next) => s'.setHook i { r with phase := .checking next }
        | (s', .inr cap) =>
            s'.setHook i
              { r with
                phase :=
                  match organizationSeatGate cap with
                  | none => .passed
                  | some error => .ended (some error) }
  | _ => none

def memberRow (r : HookRequest) (memberId : String) : MemberRow :=
  ⟨memberId, r.organizationId, r.userId, r.role⟩

/-- What BetterAuth does once the hook let the request through. -/
def insertMember (s : SeatState) (i : Nat) (r : HookRequest) (memberId : String) :
    Option SeatState :=
  if r.phase = .passed then
    some
      { s with
        members := if r.path.joins then memberRow r memberId :: s.members else s.members
        hooks := s.hooks.set i { r with phase := .ended none } }
  else none

/-! ## The SCIM projection -/

def findMember (rows : List MemberRow) (organizationId userId : String) : Option MemberRow :=
  rows.find? fun m => decide (m.organizationId = organizationId) && decide (m.userId = userId)

/-- A call of `reconcileUser` up to the first statement it awaits after its
lookup. -/
def reconcileUser (s : SeatState) (t : Nat) (p : Provisioning) (organizationId userId : String)
    (active : Bool) : Provisioning :=
  match findMember (membersSeen s (some t)) organizationId userId, active with
  | some _, true => p
  | none, true => { p with phase := .entitling organizationId userId }
  | some member, false =>
      if holdsOwnerRole member.role then p
      else { p with writes := p.writes.delete member.id }
  | none, false => p

/-- The transaction is over, and its locks are released. -/
def SeatState.endProvisioning (s : SeatState) (t : Nat) (error : Option APIError) : SeatState :=
  { s with
    locks := fun key => if s.locks key = some t then none else s.locks key
    provisionings := s.provisionings.set t ⟨Writes.empty, .ended error⟩ }

/-- The next statement of the call a transaction is in. An error thrown from the
projection rolls the transaction back. -/
def scimNext (s : SeatState) (t : Nat) (p : Provisioning) : Option SeatState :=
  match p.phase with
  | .entitling organizationId userId =>
      if hasFeature (s.plan organizationId) .sso then
        some (s.setProvisioning t { p with phase := .checking organizationId userId .entering })
      else some (s.endProvisioning t (some planRequired))
  | .checking organizationId userId call =>
      (seatCapFor s (some t) organizationId call).map fun
        | (s', .inl next) =>
            s'.setProvisioning t { p with phase := .checking organizationId userId next }
        | (s', .inr cap) =>
            if cap.available then
              s'.setProvisioning t { p with phase := .adding organizationId userId }
            else s'.endProvisioning t (some (scimSeatLimitReached cap))
  | _ => none

/-- `database.create` of the projection. -/
def createMember (s : SeatState) (t : Nat) (p : Provisioning) (memberId : String) :
    Option SeatState :=
  match p.phase with
  | .adding organizationId userId =>
      some (s.setProvisioning t
        ⟨p.writes.insert ⟨memberId, organizationId, userId, "member"⟩, .idle⟩)
  | _ => none

def Provisioning.open? (p : Provisioning) : Bool :=
  match p.phase with
  | .ended _ => false
  | _ => true

/-! ## The system -/

/-- A request whose hook is about to ask. -/
def arrived (path : HookPath) (organizationId userId role : String) : HookRequest :=
  ⟨path, organizationId, userId, role, .checking .entering⟩

inductive SeatEvent
  | request (path : HookPath) (organizationId userId role : String)
  /-- The hook of a request runs its next statement. -/
  | hook (i : Nat)
  /-- BetterAuth goes on with a request whose hook has passed. -/
  | insert (i : Nat) (memberId : String)
  /-- A request fails on the way. -/
  | abandon (i : Nat)
  | beginScim
  | reconcile (t : Nat) (organizationId userId : String) (active : Bool)
  | scim (t : Nat)
  | create (t : Nat) (memberId : String)
  | commit (t : Nat)
  | rollback (t : Nat)
  | leave (memberId : String)
  | setPlan (organizationId : String) (view : EntitlementsView)

def seatStep (s : SeatState) : SeatEvent → Option SeatState
  | .request path organizationId userId role =>
      some { s with hooks := s.hooks ++ [arrived path organizationId userId role] }
  | .hook i => s.hooks[i]?.bind (hookNext s i)
  | .insert i memberId => s.hooks[i]?.bind fun r => insertMember s i r memberId
  | .abandon i => s.hooks[i]?.map fun r => s.setHook i { r with phase := .ended none }
  | .beginScim => some { s with provisionings := s.provisionings ++ [⟨Writes.empty, .idle⟩] }
  | .reconcile t organizationId userId active =>
      s.provisionings[t]?.bind fun p =>
        if p.phase = .idle then
          some (s.setProvisioning t (reconcileUser s t p organizationId userId active))
        else none
  | .scim t => s.provisionings[t]?.bind (scimNext s t)
  | .create t memberId => s.provisionings[t]?.bind fun p => createMember s t p memberId
  | .commit t =>
      s.provisionings[t]?.bind fun p =>
        if p.phase = .idle then
          some { s.endProvisioning t none with members := p.writes.view s.members }
        else none
  | .rollback t =>
      s.provisionings[t]?.bind fun p =>
        if p.open? then some (s.endProvisioning t none) else none
  | .leave memberId => some { s with members := s.members.filter fun m => m.id ≠ memberId }
  | .setPlan organizationId view =>
      some { s with plan := fun o => if o = organizationId then view else s.plan o }

/-- The member rows a step commits. -/
def committedRows (s : SeatState) : SeatEvent → List MemberRow
  | .insert i memberId =>
      match s.hooks[i]? with
      | none => []
      | some r => if r.path.joins then [memberRow r memberId] else []
  | .commit t =>
      match s.provisionings[t]? with
      | none => []
      | some p => p.writes.inserted
  | _ => []

end CleanStack.Auth
