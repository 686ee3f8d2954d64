import CleanStack.Admin.StaffService
import CleanStack.Lib.Runs

/-!
# Account deletion

A deletion is requested, may be cancelled for the length of a grace period, and
is carried out by a sweep. Each of the three reads the user first and acts in a
transaction later, so what it read may no longer hold when it acts. The
transactions are the functions of the first part; `accountStep` runs them beside
the operations on staff, with the reads as steps of their own.

A sweep picks its candidates once, reads the state of one of them, and wipes
that one before it reads the next. Other users' wipes, and everybody else's
transactions, come in between.
-/

namespace CleanStack.Rgpd

open CleanStack.Lib CleanStack.Drizzle CleanStack.AccessControl CleanStack.Admin

def deletionNotFound (message : String) : AppError :=
  ⟨"ACCOUNT_DELETION_NOT_FOUND", message⟩

def deletionBlocked : AppError :=
  ⟨"ACCOUNT_DELETION_BLOCKED",
    "transfer ownership or delete the listed organizations before account deletion"⟩

def twoFactorRequired : AppError :=
  ⟨"TWO_FACTOR_REQUIRED", "two-factor TOTP code required"⟩

def twoFactorInvalid : AppError := ⟨"TWO_FACTOR_INVALID", "invalid TOTP code"⟩

def passwordRequired : AppError :=
  ⟨"ACCOUNT_PASSWORD_REQUIRED", "password required to confirm deletion"⟩

def passwordInvalid : AppError := ⟨"ACCOUNT_PASSWORD_INVALID", "invalid password"⟩

def lastManagerDeletion : AppError :=
  ⟨"ACCOUNT_DELETION_LAST_MANAGER_FORBIDDEN",
    "appoint another staff manager before deleting this account"⟩

/-! ## Requesting -/

/-- What the request is confirmed with: the organizations that stand in the
way, and a code and a password, each with whether it is the right one. -/
structure Confirmation where
  blockingOrgs : List String
  totpCode : Option Bool
  password : Option Bool

def confirmationRefusal (user : UserRow) (c : Confirmation) : Option AppError :=
  if c.blockingOrgs.length > 0 then some deletionBlocked
  else if user.twoFactorEnabled = some true then
    match c.totpCode with
    | none => some twoFactorRequired
    | some accepted => if accepted then none else some twoFactorInvalid
  else
    match c.password with
    | none => some passwordRequired
    | some accepted => if accepted then none else some passwordInvalid

def day : Time := 86400 * second

/-- What `requestAccountDeletion` does before its transaction: the date the
deletion is put off to, or `none` when one is pending already. -/
def readRequest (db : StaffDb) (now : Time) (gracePeriodDays : Nat) (userId : String)
    (c : Confirmation) : Except AppError (Option Time) :=
  match db.users.find? userId with
  | none => .error (deletionNotFound "user not found")
  | some user =>
      if user.pendingDeletionUntil.isSome then .ok none
      else
        match confirmationRefusal user c with
        | some error => .error error
        | none => .ok (some (now + day * gracePeriodDays))

def refusedLastManager (env : StaffEnv) (db : StaffDb) (now : Time) (userId : String) :
    Option AppError :=
  if env.isListed userId then none
  else
    let isManager := (findActive db userId now).any fun row =>
      row.role = .manager && grantsStaffAccess row.userId row.source env
    if !isManager then none
    else if isLastManager userId (lockActiveManagers db now) env then
      some lastManagerDeletion
    else none

def pendingRow (pendingDeletionUntil : Option Time) (u : UserRow) : UserRow :=
  { u with pendingDeletionUntil := pendingDeletionUntil }

theorem key_pendingRow (pendingDeletionUntil : Option Time) (u : UserRow) :
    Keyed.key (pendingRow pendingDeletionUntil u) = Keyed.key u :=
  rfl

def markPendingDeletion (db : StaffDb) (userId : String) (until_ : Time) : StaffDb :=
  updateUser db userId (pendingRow (some until_)) (key_pendingRow (some until_))

def requestTransaction (env : StaffEnv) (db : StaffDb) (now : Time) (userId : String)
    (until_ : Time) : Except AppError StaffDb :=
  match refusedLastManager env db now userId with
  | some error => .error error
  | none => .ok (markPendingDeletion db userId until_)

/-! ## Cancelling -/

/-- What `cancelAccountDeletion` checks before its transaction. -/
def readCancel (db : StaffDb) (userId : String) : Option AppError :=
  match db.users.find? userId with
  | none => some (deletionNotFound "user not found")
  | some user =>
      if user.deletedAt.isSome then some (deletionNotFound "account has already been wiped")
      else if user.pendingDeletionUntil.isNone then
        some (deletionNotFound "no pending deletion to cancel")
      else none

def clearPendingDeletion (db : StaffDb) (userId : String) : StaffDb :=
  updateUser db userId (pendingRow none) (key_pendingRow none)

/-! ## Wiping -/

def readyForWipe (now : Time) (u : UserRow) : Bool :=
  (u.pendingDeletionUntil.any fun d => d ≤ now) && u.deletedAt.isNone

/-- The date the user's deletion was put off to, when `executeAccountWipe` goes
on to its transaction. -/
def readWipe (db : StaffDb) (now : Time) (userId : String) : Option Time :=
  match db.users.find? userId with
  | none => none
  | some user =>
      if user.deletedAt.isSome then none
      else user.pendingDeletionUntil.filter fun d => d ≤ now

def wipedRow (now : Time) (u : UserRow) : UserRow :=
  { u with
    twoFactorEnabled := some false
    pendingDeletionUntil := none
    deletedAt := some now }

theorem key_wipedRow (now : Time) (u : UserRow) :
    Keyed.key (wipedRow now u) = Keyed.key u :=
  rfl

def wipes (userId : String) (u : UserRow) : Bool := u.id = userId && u.deletedAt.isNone

/-- The database, and whether the account was wiped already. -/
def executeWipe (db : StaffDb) (userId : String) (now : Time) : StaffDb × Bool :=
  ({ db with users := db.users.update (wipes userId) (wipedRow now) (key_wipedRow now) },
    !db.users.rows.any (wipes userId))

def revokeStaffAccess (db : StaffDb) (userId : String) (now : Time) : StaffDb :=
  if (findActive db userId now).isSome then Admin.revoke db userId now else db

def wipeTransaction (db : StaffDb) (userId : String) (now : Time) : StaffDb :=
  let (wiped, alreadyWiped) := executeWipe db userId now
  if alreadyWiped then wiped else revokeStaffAccess wiped userId now

/-! ## Side by side -/

/-- The candidates a sweep has yet to look at, and the one it is about to wipe,
with the date it read. -/
structure Sweep where
  batch : List String
  reading : Option (String × Time)

/-- Requests and cancellations wait between their reads and their transactions;
a request waits with the date it has computed. -/
structure AccountState where
  clock : Time
  db : StaffDb
  requests : List (String × Time)
  cancels : List String
  sweeps : List Sweep

structure RgpdSettings where
  gracePeriodDays : Nat

inductive AccountEvent
  | staff (input : StaffChange) (op : StaffOperation)
  | ban (input : StaffChange) (expiresIn : Option Nat)
  | beginRequest (userId : String) (c : Confirmation)
  | commitRequest (i : Nat)
  | beginCancel (userId : String)
  | commitCancel (i : Nat)
  | startSweep (chosen : List String) (limit : Nat)
  | readState (i : Nat)
  | wipe (i : Nat)
  | dropWipe (i : Nat)
  | wait (n : Nat)

/-- A transaction that fails leaves the database as it was. -/
def AccountState.commit (s : AccountState) (out : Except AppError StaffDb) : AccountState :=
  match out with
  | .ok db => { s with db := db }
  | .error _ => s

def AccountState.setSweep (s : AccountState) (i : Nat) (sweep : Sweep) : AccountState :=
  { s with sweeps := s.sweeps.set i sweep }

def accountStep (env : StaffEnv) (settings : RgpdSettings) (s : AccountState) :
    AccountEvent → Option AccountState
  | .staff input op => some (s.commit (op.run env s.db s.clock input))
  | .ban input expiresIn => some (s.commit (moderateBan env s.db s.clock input expiresIn))
  | .beginRequest userId c =>
      match readRequest s.db s.clock settings.gracePeriodDays userId c with
      | .ok (some until_) => some { s with requests := s.requests ++ [(userId, until_)] }
      | _ => some s
  | .commitRequest i => do
      let (userId, until_) ← s.requests[i]?
      some ({ s with requests := s.requests.eraseIdx i }.commit
        (requestTransaction env s.db s.clock userId until_))
  | .beginCancel userId =>
      match readCancel s.db userId with
      | some _ => some s
      | none => some { s with cancels := s.cancels ++ [userId] }
  | .commitCancel i => do
      let userId ← s.cancels[i]?
      some { s with
        cancels := s.cancels.eraseIdx i
        db := clearPendingDeletion s.db userId }
  | .startSweep chosen limit =>
      -- `LIMIT` without `ORDER BY`: any rows that are ready
      if chosen.length ≤ limit && chosen.all fun userId =>
          (s.db.users.find? userId).any (readyForWipe s.clock) then
        some { s with sweeps := s.sweeps ++ [⟨chosen, none⟩] }
      else none
  | .readState i => do
      let sweep ← s.sweeps[i]?
      match sweep.reading, sweep.batch with
      | none, userId :: batch =>
          some (s.setSweep i
            ⟨batch, (readWipe s.db s.clock userId).map fun d => (userId, d)⟩)
      | _, _ => none
  | .wipe i => do
      let sweep ← s.sweeps[i]?
      let (userId, _) ← sweep.reading
      some { s.setSweep i { sweep with reading := none } with
        db := wipeTransaction s.db userId s.clock }
  | .dropWipe i => do
      let sweep ← s.sweeps[i]?
      some (s.setSweep i { sweep with reading := none })
  | .wait n => some { s with clock := s.clock + n }

end CleanStack.Rgpd
