import CleanStack.Admin.StaffService
import CleanStack.Kit.JsValue

/-!
# Approval rows

The table of approval requests, the statements of its store, and the
announcements that are written in the same transactions. The check constraints
of the table admit only the statuses and actions of the two types, so a row is
a record, and every row a statement returns is one.

A change the staff make through an approved request is recorded with the id of
the request, next to the staff rows it changes: that is what "the action took
effect" means below.

An insertion that conflicts on the open request of the same action and subject
does nothing, and the open request is read instead. Between the two statements
the open request may settle, which is why the code tries again; in a
transaction on its own the first attempt decides.
-/

namespace CleanStack.Admin

open CleanStack.Lib CleanStack.Drizzle CleanStack.AccessControl CleanStack.Kit

inductive ApprovalStatus
  | pending
  | approved
  | rejected
  | cancelled
  | expired
  | executed
  | failed
  deriving DecidableEq, Repr

structure ApprovalRecord where
  id : String
  action : ApprovalAction
  subjectId : String
  params : JsValue
  requestedBy : String
  status : ApprovalStatus
  decidedBy : Option String
  decisionNote : Option String
  failureReason : Option String
  expiresAt : Time
  decidedAt : Option Time
  createdAt : Time
  version : Nat

instance : Keyed ApprovalRecord String := ⟨ApprovalRecord.id⟩

/-- What an announcement says, with the fields that go with it. -/
inductive ApprovalNews
  | requested
  | decided (outcome : ApprovalStatus) (note : String)
  | executed
  | failed (reason : String)
  | cancelled
  | expired
  deriving DecidableEq, Repr

structure Announcement where
  news : ApprovalNews
  approvalId : String
  action : ApprovalAction
  requesterUserId : String
  userId : String
  actorUserId : Option String

/-- `effects` are the requests whose action has been carried out. -/
structure ApprovalDb where
  approvals : Table ApprovalRecord
  staff : StaffDb
  effects : List String
  announcements : List Announcement

/-- `announce`: the event joins the open transaction. -/
def ApprovalDb.announce (db : ApprovalDb) (news : ApprovalNews) (record : ApprovalRecord)
    (actorUserId : Option String) : ApprovalDb :=
  { db with
    announcements := db.announcements ++
      [⟨news, record.id, record.action, record.requestedBy, record.subjectId, actorUserId⟩] }

/-- The same announcement of every record, one after the other. -/
def ApprovalDb.announceAll (db : ApprovalDb) (news : ApprovalNews) :
    List ApprovalRecord → ApprovalDb
  | [] => db
  | record :: records => (db.announce news record none).announceAll news records

def pendingAndLive (now : Time) (r : ApprovalRecord) : Bool :=
  r.status = .pending && now < r.expiresAt

def pendingAndDue (now : Time) (r : ApprovalRecord) : Bool :=
  r.status = .pending && r.expiresAt < now

/-- `UPDATE … SET f WHERE chosen`, and the rows it returns. -/
def ApprovalDb.set (db : ApprovalDb) (chosen : ApprovalRecord → Bool)
    (f : ApprovalRecord → ApprovalRecord) (hf : ∀ r, Keyed.key (f r) = Keyed.key r) :
    ApprovalDb × List ApprovalRecord :=
  ({ db with approvals := db.approvals.update chosen f hf }, db.approvals.returning chosen f)

/-! ## Creating -/

structure ApprovalWrite where
  action : ApprovalAction
  subjectId : String
  params : JsValue
  requestedBy : String
  ttlHours : Nat

def newRecord (id : String) (input : ApprovalWrite) (now : Time) : ApprovalRecord where
  id := id
  action := input.action
  subjectId := input.subjectId
  params := input.params
  requestedBy := input.requestedBy
  status := .pending
  decidedBy := none
  decisionNote := none
  failureReason := none
  expiresAt := secondsFromNow now (input.ttlHours * 3600)
  decidedAt := none
  createdAt := now
  version := 0

def isOpenFor (action : ApprovalAction) (subjectId : String) (r : ApprovalRecord) : Bool :=
  r.action = action && r.subjectId = subjectId && r.status = .pending

/-- The record, and whether it is new. `none` if the fresh id is taken. -/
def create (db : ApprovalDb) (id : String) (input : ApprovalWrite) (now : Time) :
    Option (ApprovalDb × ApprovalRecord × Bool) :=
  match db.approvals.rows.find? (isOpenFor input.action input.subjectId) with
  | some record => some (db, record, false)
  | none =>
      let record := newRecord id input now
      (db.approvals.insert record).map fun approvals =>
        ({ db with approvals := approvals }, record, true)

/-! ## Settling -/

structure ApprovalClaim where
  id : String
  status : ApprovalStatus
  decidedBy : String
  note : String

def claimRow (input : ApprovalClaim) (now : Time) (r : ApprovalRecord) : ApprovalRecord :=
  { r with
    status := input.status
    decidedBy := some input.decidedBy
    decisionNote := some input.note
    decidedAt := some now
    version := r.version + 1 }

theorem key_claimRow (input : ApprovalClaim) (now : Time) (r : ApprovalRecord) :
    Keyed.key (claimRow input now r) = Keyed.key r :=
  rfl

/-- Writing `decidedBy` into one of the chosen rows breaks the check constraint
`decided_by <> requested_by`. -/
def ApprovalDb.breaksFourEyes (db : ApprovalDb) (chosen : ApprovalRecord → Bool)
    (decidedBy : String) : Bool :=
  db.approvals.rows.any fun r => chosen r && r.requestedBy = decidedBy

def claimable (input : ApprovalClaim) (now : Time) (r : ApprovalRecord) : Bool :=
  r.id = input.id && pendingAndLive now r

/-- `none` when the statement fails. -/
def claim (db : ApprovalDb) (input : ApprovalClaim) (now : Time) :
    Option (ApprovalDb × Option ApprovalRecord) :=
  if db.breaksFourEyes (claimable input now) input.decidedBy then none
  else
    let (claimed, rows) :=
      db.set (claimable input now) (claimRow input now) (key_claimRow input now)
    some (claimed, rows.head?)

def endRow (status : ApprovalStatus) (now : Time) (r : ApprovalRecord) : ApprovalRecord :=
  { r with status := status, decidedAt := some now, version := r.version + 1 }

theorem key_endRow (status : ApprovalStatus) (now : Time) (r : ApprovalRecord) :
    Keyed.key (endRow status now r) = Keyed.key r :=
  rfl

def cancel (db : ApprovalDb) (id requestedBy : String) (now : Time) :
    ApprovalDb × List ApprovalRecord :=
  db.set (fun r => r.id = id && r.requestedBy = requestedBy && pendingAndLive now r)
    (endRow .cancelled now) (key_endRow .cancelled now)

def executedRow (r : ApprovalRecord) : ApprovalRecord :=
  { r with status := .executed, version := r.version + 1 }

theorem key_executedRow (r : ApprovalRecord) : Keyed.key (executedRow r) = Keyed.key r :=
  rfl

def markExecuted (db : ApprovalDb) (id : String) (version : Nat) : ApprovalDb × Bool :=
  let (marked, rows) :=
    db.set (fun r => r.id = id && r.status = .approved && r.version = version) executedRow
      key_executedRow
  (marked, !rows.isEmpty)

structure ApprovalFailure where
  id : String
  decidedBy : String
  note : String
  reason : String

def failedRow (input : ApprovalFailure) (now : Time) (r : ApprovalRecord) : ApprovalRecord :=
  { r with
    status := .failed
    decidedBy := some input.decidedBy
    decisionNote := some input.note
    failureReason := some input.reason
    decidedAt := some now
    version := r.version + 1 }

theorem key_failedRow (input : ApprovalFailure) (now : Time) (r : ApprovalRecord) :
    Keyed.key (failedRow input now r) = Keyed.key r :=
  rfl

def stillPending (id : String) (r : ApprovalRecord) : Bool := r.id = id && r.status = .pending

/-- `none` when the statement fails. -/
def markFailed (db : ApprovalDb) (input : ApprovalFailure) (now : Time) :
    Option (ApprovalDb × Bool) :=
  if db.breaksFourEyes (stillPending input.id) input.decidedBy then none
  else
    let (marked, rows) :=
      db.set (stillPending input.id) (failedRow input now) (key_failedRow input now)
    some (marked, !rows.isEmpty)

/-- `batch` is what the locking subquery picked. -/
def expireDue (db : ApprovalDb) (batch : List String) (now : Time) :
    ApprovalDb × List ApprovalRecord :=
  db.set (fun r => batch.contains r.id && pendingAndDue now r) (endRow .expired now)
    (key_endRow .expired now)

def expireDueFor (db : ApprovalDb) (action : ApprovalAction) (subjectId : String)
    (now : Time) : ApprovalDb × List ApprovalRecord :=
  db.set (fun r => r.action = action && r.subjectId = subjectId && pendingAndDue now r)
    (endRow .expired now) (key_endRow .expired now)

def erasedRow (r : ApprovalRecord) : ApprovalRecord :=
  { r with params := .obj [], decisionNote := none }

theorem key_erasedRow (r : ApprovalRecord) : Keyed.key (erasedRow r) = Keyed.key r :=
  rfl

def isOpenOf (userId : String) (r : ApprovalRecord) : Bool :=
  r.status = .pending && (r.subjectId = userId || r.requestedBy = userId)

/-- Ends the open requests of the user or about the user, then erases the free
text of every request about the user. -/
def closeForDeletedUser (db : ApprovalDb) (userId : String) (now : Time) :
    ApprovalDb × List ApprovalRecord :=
  let (closed, rows) :=
    db.set (isOpenOf userId) (endRow .cancelled now) (key_endRow .cancelled now)
  ((closed.set (fun r => r.subjectId = userId) erasedRow key_erasedRow).1, rows)

end CleanStack.Admin
