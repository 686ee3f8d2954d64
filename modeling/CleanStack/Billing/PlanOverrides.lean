import CleanStack.Billing.Entitlements
import CleanStack.Drizzle.Lease
import CleanStack.Lib.Runs
import CleanStack.Lib.Table

/-!
# Overriding a plan

Staff set a plan on an organization until a date, or revoke it. A set closes the
override that is open and inserts the new one, in a transaction; a partial unique
index keeps a second open one out. Both events name what was closed.

Transactions run interleaved, statement by statement, at READ COMMITTED. An
`UPDATE` looks for its row among the rows committed when it starts. If another
transaction has written that row it waits for its end, and then takes the row
only if it still matches; a row that was inserted meanwhile it does not see. An
insert waits for whoever has written in the organization, and a conflict with
what is committed then makes it insert nothing.
-/

namespace CleanStack.Billing

open CleanStack.Admin CleanStack.Drizzle CleanStack.Lib

structure PlanOverrideRow where
  id : String
  organizationId : String
  tier : String
  expiresAt : Time
  note : String
  createdBy : String
  createdAt : Time
  revokedAt : Option Time
  deriving DecidableEq, Repr

instance : Keyed PlanOverrideRow String := ⟨fun r => r.id⟩

/-- What the unique index is on. -/
def isOpenOf (organizationId : String) (r : PlanOverrideRow) : Bool :=
  r.organizationId = organizationId && r.revokedAt.isNone

def activeOf (organizationId : String) (now : Time) (r : PlanOverrideRow) : Bool :=
  r.organizationId = organizationId && r.revokedAt.isNone && decide (now < r.expiresAt)

def findActive (t : Table PlanOverrideRow) (organizationId : String) (now : Time) :
    Option PlanOverrideRow :=
  t.rows.find? (activeOf organizationId now)

def closedRow (now : Time) (r : PlanOverrideRow) : PlanOverrideRow :=
  { r with revokedAt := some now }

theorem key_closedRow (now : Time) (r : PlanOverrideRow) :
    Keyed.key (closedRow now r) = Keyed.key r :=
  rfl

/-! ## Events -/

/-- `ADMIN_PLAN_OVERRIDE_SET` and `ADMIN_PLAN_OVERRIDE_REVOKED`. -/
inductive OverrideEvent
  | set (actorUserId overrideId organizationId tier : String) (expiresAt : Time)
      (replacedOverrideId : Option String)
  | revoked (actorUserId overrideId organizationId tier : String)
  deriving DecidableEq, Repr

/-! ## Requests -/

inductive OverrideTask
  | set (actorUserId organizationId tier : String) (expiresAt : Time) (note : String)
  | revoke (actorUserId organizationId : String)
  deriving DecidableEq, Repr

def OverrideTask.organizationId : OverrideTask → String
  | .set _ organizationId _ _ _ => organizationId
  | .revoke _ organizationId => organizationId

/-- The rows the `UPDATE` is for: `closeOpen` or `revokeActive`. -/
def OverrideTask.closes (task : OverrideTask) (now : Time) : PlanOverrideRow → Bool :=
  match task with
  | .set _ organizationId _ _ _ => isOpenOf organizationId
  | .revoke _ organizationId => activeOf organizationId now

def orgNotFound : AppError := ⟨"ADMIN_ORG_NOT_FOUND", "This organization no longer exists."⟩

def alreadySet : AppError :=
  ⟨"ADMIN_PLAN_OVERRIDE_ALREADY_SET_CONFLICT",
    "A colleague just set a plan override on this organization."⟩

def noOverride : AppError :=
  ⟨"ADMIN_PLAN_OVERRIDE_NOT_FOUND", "This organization has no active plan override."⟩

def overrideStoreFailure (op : String) : AppError :=
  ⟨"PLAN_OVERRIDE_PROVIDER_FAILURE", "database operation failed: " ++ op⟩

inductive OverrideOutcome
  | done
  | failed (error : AppError)
  /-- The event cannot be written, or the transaction not committed. -/
  | thrown
  deriving DecidableEq, Repr

inductive OverridePhase
  | opened
  /-- In the `UPDATE`, which has seen this row. -/
  | updating (seen : Option String)
  | updated (closed : Option PlanOverrideRow)
  | inserted (closed : Option PlanOverrideRow) (row : PlanOverrideRow)
  | ended (outcome : OverrideOutcome)
  deriving DecidableEq, Repr

/-- `now` is what `now()` is in its transaction. -/
structure OverrideTx where
  task : OverrideTask
  now : Time
  phase : OverridePhase
  deriving DecidableEq, Repr

/-- The row it has closed, and keeps locked. -/
def OverrideTx.closed (tx : OverrideTx) : Option PlanOverrideRow :=
  match tx.phase with
  | .updated closed => closed
  | .inserted closed _ => closed
  | _ => none

/-- It has written in its organization. -/
def OverrideTx.hasWritten (tx : OverrideTx) : Bool :=
  match tx.phase with
  | .updated closed => closed.isSome
  | .inserted _ _ => true
  | _ => false

structure OverrideState where
  overrides : Table PlanOverrideRow
  txs : List OverrideTx
  log : List OverrideEvent

inductive OverrideStep
  /-- A set begins with a look at the organization: there, or not, or a failure. -/
  | set (actorUserId organizationId tier : String) (expiresAt : Time) (note : String)
      (org : Except AppError Bool) (now : Time)
  | revoke (actorUserId organizationId : String) (now : Time)
  | update (k : Nat)
  | updated (k : Nat)
  | insert (k : Nat) (overrideId : String)
  | commit (k : Nat)
  /-- A statement fails, or the commit. -/
  | fails (k : Nat)

/-- Another transaction for which `p` holds. -/
def otherHas (txs : List OverrideTx) (k : Nat) (p : OverrideTx → Bool) : Bool :=
  (List.range txs.length).any fun j => j ≠ k && (txs[j]?.any p)

def insertsId (id : String) (tx : OverrideTx) : Bool :=
  match tx.phase with
  | .inserted _ row => row.id = id
  | _ => false

def closesRow (id : String) (tx : OverrideTx) : Bool := tx.closed.any fun r => r.id = id

def writesIn (organizationId : String) (tx : OverrideTx) : Bool :=
  tx.task.organizationId = organizationId && tx.hasWritten

/-- Where the insert conflicts: with an open row that is not its own closed one. -/
def conflicts (t : Table PlanOverrideRow) (organizationId : String)
    (closed : Option PlanOverrideRow) : Bool :=
  t.rows.any fun r => isOpenOf organizationId r && closed.all fun c => c.id ≠ r.id

namespace OverrideState

variable (s : OverrideState) (k : Nat) (tx : OverrideTx)

def setPhase (phase : OverridePhase) : OverrideState :=
  { s with txs := s.txs.set k { tx with phase } }

def startPhase (org : Except AppError Bool) : OverridePhase :=
  match org with
  | .error error => .ended (.failed error)
  | .ok false => .ended (.failed orgNotFound)
  | .ok true => .opened

def begin (task : OverrideTask) (now : Time) (phase : OverridePhase) : OverrideState :=
  { s with txs := s.txs ++ [⟨task, now, phase⟩] }

/-- The row the statement has seen, if it still matches. -/
def matching (seen : Option String) : Option PlanOverrideRow :=
  (seen.bind s.overrides.find?).filter (tx.task.closes tx.now)

/-- The phase after the `UPDATE`: a revocation that has found nothing is over. -/
def updatedPhase (closed : Option PlanOverrideRow) : OverridePhase :=
  match tx.task, closed with
  | .revoke _ _, none => .ended (.failed noOverride)
  | _, _ => .updated closed

/-- The committed rows once the row of the transaction is closed. -/
def closeRow (closed : Option PlanOverrideRow) : Table PlanOverrideRow :=
  s.overrides.update (fun r => closed.any fun c => c.id = r.id) (closedRow tx.now)
    (key_closedRow tx.now)

end OverrideState

/-- What a failure of the statement that is under way, or of the commit, is
answered with. -/
def failureOf (tx : OverrideTx) : Option OverrideOutcome :=
  match tx.phase, tx.task with
  | .opened, .set .. => some (.failed (overrideStoreFailure "close open plan override"))
  | .opened, .revoke .. => some (.failed (overrideStoreFailure "revoke plan override"))
  | .updating _, .set .. => some (.failed (overrideStoreFailure "close open plan override"))
  | .updating _, .revoke .. => some (.failed (overrideStoreFailure "revoke plan override"))
  | .updated _, .set .. => some (.failed (overrideStoreFailure "insert plan override"))
  | .updated _, .revoke .. => some .thrown
  | .inserted _ _, _ => some .thrown
  | .ended _, _ => none

open OverrideState in
def overrideStep (s : OverrideState) : OverrideStep → Option OverrideState
  | .set actorUserId organizationId tier expiresAt note org now =>
      some (s.begin (.set actorUserId organizationId tier expiresAt note) now (startPhase org))
  | .revoke actorUserId organizationId now =>
      some (s.begin (.revoke actorUserId organizationId) now .opened)
  | .update k =>
      s.txs[k]?.bind fun tx =>
        match tx.phase with
        | .opened =>
            let seen := (s.overrides.rows.find? (tx.task.closes tx.now)).map PlanOverrideRow.id
            some (s.setPhase k tx (.updating seen))
        | _ => none
  | .updated k =>
      s.txs[k]?.bind fun tx =>
        match tx.phase with
        | .updating seen =>
            if seen.any fun id => otherHas s.txs k (closesRow id) then none
            else some (s.setPhase k tx (updatedPhase tx (s.matching tx seen)))
        | _ => none
  | .insert k overrideId =>
      s.txs[k]?.bind fun tx =>
        match tx.phase, tx.task with
        | .updated closed, .set actorUserId organizationId tier expiresAt note =>
            if otherHas s.txs k (writesIn organizationId) then none
            else if conflicts s.overrides organizationId closed then
              some (s.setPhase k tx (.ended (.failed alreadySet)))
            else if (s.overrides.find? overrideId).isSome ||
                otherHas s.txs k (insertsId overrideId) then none
            else
              let row : PlanOverrideRow :=
                ⟨overrideId, organizationId, tier, expiresAt, note, actorUserId, tx.now, none⟩
              some (s.setPhase k tx (.inserted closed row))
        | _, _ => none
  | .commit k =>
      s.txs[k]?.bind fun tx =>
        match tx.phase, tx.task with
        | .inserted closed row, .set actorUserId organizationId tier expiresAt _ =>
            ((s.closeRow tx closed).insert row).map fun overrides =>
              { s.setPhase k tx (.ended .done) with
                overrides
                log := s.log ++ [.set actorUserId row.id organizationId tier expiresAt
                  (closed.map PlanOverrideRow.id)] }
        | .updated (some row), .revoke actorUserId organizationId =>
            some { s.setPhase k tx (.ended .done) with
              overrides := s.closeRow tx (some row)
              log := s.log ++ [.revoked actorUserId row.id organizationId row.tier] }
        | _, _ => none
  | .fails k =>
      s.txs[k]?.bind fun tx => (failureOf tx).map fun outcome => s.setPhase k tx (.ended outcome)

def noOverrides : OverrideState := ⟨Table.empty, [], []⟩

end CleanStack.Billing
