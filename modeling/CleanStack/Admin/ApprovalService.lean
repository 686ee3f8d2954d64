import CleanStack.Admin.ApprovalStore
import CleanStack.Lib.Runs

/-!
# Deciding on a request

A sensitive action becomes a request, and another person decides on it. The
operations of the approval service read a row first and act in a transaction
later; a decision that is approved runs the action in the transaction that
claims the request, and a decision that fails is recorded in a second one.

`approvalStep` takes one read or one committed transaction at a time. An
operation waits between its steps in a list of its own, for as long as it
likes: one that is never taken up again has crashed.

The environment chooses what it knows best: what the handlers answer, how a
carried out action changes the staff rows, and any other change of these. The
stored parameters are parsed by schemas, given as a function; an action that is
run has passed them, and nothing else is asked of it here.
-/

namespace CleanStack.Admin

open CleanStack.Lib CleanStack.Drizzle CleanStack.AccessControl CleanStack.Kit

def approvalNotFound : AppError :=
  ⟨"ADMIN_APPROVAL_NOT_FOUND", "This approval request does not exist."⟩

def requesterLost : AppError :=
  ⟨"ADMIN_APPROVAL_REQUESTER_LOST_CONFLICT",
    "The person who asked no longer holds this power, so the request is closed."⟩

def alreadyDecided : AppError :=
  ⟨"ADMIN_APPROVAL_DECIDED_CONFLICT", "This request has already been settled."⟩

def approvalExpired : AppError :=
  ⟨"ADMIN_APPROVAL_EXPIRED_CONFLICT",
    "This request has expired. Ask again if the action is still needed."⟩

def selfSubject : AppError :=
  ⟨"ADMIN_APPROVAL_SELF_SUBJECT_FORBIDDEN",
    "Nobody asks a colleague to act on their own account."⟩

def alreadyPending : AppError :=
  ⟨"ADMIN_APPROVAL_ALREADY_PENDING_CONFLICT",
    "A different request on this person is already waiting for a decision."⟩

def selfDecision : AppError :=
  ⟨"ADMIN_APPROVAL_SELF_DECISION_FORBIDDEN", "A different person must decide this request."⟩

def subjectDecision : AppError :=
  ⟨"ADMIN_APPROVAL_SUBJECT_DECISION_FORBIDDEN",
    "Nobody decides a request about their own account."⟩

def decisionPermission (permission : StaffPermission) : AppError :=
  ⟨"ADMIN_APPROVAL_PERMISSION_FORBIDDEN",
    "Deciding this request requires the " ++ permission.text ++ " permission."⟩

def invalidParams : AppError :=
  ⟨"ADMIN_APPROVAL_PARAMS_INVALID", "The stored request no longer passes validation."⟩

def approvalWriteFailed (message : String) : AppError :=
  ⟨"ADMIN_APPROVAL_PROVIDER_FAILURE", message⟩

/-! ## Parameters -/

mutual

/-- An object becomes the list of its fields, in the order of their names. -/
def canonical : JsValue → JsValue
  | .arr items => .arr (canonicalItems items)
  | .obj fields =>
      .arr (((canonicalEntries fields).insertionSort fun a b => stringLe a.1 b.1 = true).map
        fun f => .arr [.str f.1, f.2])
  | value => value

def canonicalItems : List JsValue → List JsValue
  | [] => []
  | v :: vs => canonical v :: canonicalItems vs

def canonicalEntries : List (String × JsValue) → List (String × JsValue)
  | [] => []
  | (k, v) :: fs => (k, canonical v) :: canonicalEntries fs

end

def sameApprovalParams (a b : JsValue) : Bool :=
  canonicalize (canonical a) = canonicalize (canonical b)

section Service

-- the schemas of the stored parameters
variable (safeParse : ApprovalAction → JsValue → Option JsValue)

def readApprovedAction (record : ApprovalRecord) : Except AppError JsValue :=
  match record.action with
  | .staffRevoke => .ok (.obj [])
  | action =>
      match safeParse action record.params with
      | none => .error invalidParams
      | some params => .ok params

/-! ## Asking -/

structure ApprovalSettings where
  approvalEnabled : Bool
  approvalActions : List ApprovalAction
  approvalTtlHours : Nat

structure ApprovalRequest where
  action : ApprovalAction
  subjectId : String
  requestedBy : String
  deriving DecidableEq

/-- A refusal names the open request that stands in the way, if one does. -/
structure GateRefusal where
  error : AppError
  approvalId : Option String

variable (env : StaffEnv) (settings : ApprovalSettings)

/-- What `gate` does before its transaction; `none` when the action needs no
approval. `prepared` is the answer of the action's handler. -/
def prepareGate (db : StaffDb) (input : ApprovalRequest) (prepared : Except AppError JsValue) :
    Except AppError (Option JsValue) :=
  if settings.approvalEnabled && settings.approvalActions.contains input.action then
    match prepared with
    | .error error => .error error
    | .ok params =>
        if input.subjectId = input.requestedBy then .error selfSubject
        else if (db.users.find? input.subjectId).isNone then .error userNotFound
        else .ok (some params)
  else .ok none

/-- `id` is the fresh id of a new request. -/
def gateTransaction (db : ApprovalDb) (now : Time) (id : String) (input : ApprovalRequest)
    (params : JsValue) : Except GateRefusal (ApprovalDb × String) :=
  let (swept, overdue) := expireDueFor db input.action input.subjectId now
  let announced := swept.announceAll .expired overdue
  match create announced id
      ⟨input.action, input.subjectId, params, input.requestedBy, settings.approvalTtlHours⟩
      now with
  | none => .error ⟨approvalWriteFailed "approval create failed", none⟩
  | some (created, record, isNew) =>
      let sameRequest := record.requestedBy = input.requestedBy &&
        sameApprovalParams record.params params
      if !isNew && !sameRequest then .error ⟨alreadyPending, some record.id⟩
      else if isNew then
        .ok (created.announce .requested record (some input.requestedBy), record.id)
      else .ok (created, record.id)

/-! ## Deciding -/

inductive Verdict
  | approve
  | reject
  deriving DecidableEq, Repr

structure ApprovalDecision where
  approvalId : String
  deciderUserId : String
  deciderPermissions : List StaffPermission
  decision : Verdict
  note : String

def isOver (now : Time) (record : ApprovalRecord) : Bool := record.expiresAt ≤ now

def refusal (now : Time) (record : ApprovalRecord) (input : ApprovalDecision) :
    Option AppError :=
  if record.requestedBy = input.deciderUserId then some selfDecision
  else if record.subjectId = input.deciderUserId then some subjectDecision
  else
    let permission := APPROVAL_ACTION_PERMISSION record.action
    if !input.deciderPermissions.contains permission then some (decisionPermission permission)
    else if record.status ≠ .pending then some alreadyDecided
    else if isOver now record then some approvalExpired
    else none

def requesterHolds (staff : StaffDb) (now : Time) (record : ApprovalRecord) : Bool :=
  let unbanned := (findActive staff record.requestedBy now).filter fun row => !row.banned
  let permission := APPROVAL_ACTION_PERMISSION record.action
  match staffAccessOf ⟨record.requestedBy, none, none, none, none, none⟩ unbanned env now with
  | none => false
  | some access => access.permissions.contains permission

/-- What `decide` does before the requester is looked at: the record, if it is
not refused. `authorized` is the answer of the action's handler. -/
def loadDecision (db : ApprovalDb) (now : Time) (input : ApprovalDecision)
    (authorized : Except AppError Unit) : Except AppError ApprovalRecord :=
  match db.approvals.find? input.approvalId with
  | none => .error approvalNotFound
  | some record =>
      match refusal now record input with
      | some error => .error error
      | none =>
          if input.decision = .approve then
            match readApprovedAction safeParse record, authorized with
            | .ok _, .error error => .error error
            | _, _ => .ok record
          else .ok record

/-- How the handler's `run` ends; when it succeeds, with the staff rows it
leaves. A statement that fails after it ends the transaction like a failed
`run`. -/
inductive HandlerRun
  | ok (staff : StaffDb)
  | failed (error : AppError)
  | threw

/-- How the transaction of a decision ends. A failure after the claim is
recorded, a failure before it is not. -/
inductive Outcome
  | committed (db : ApprovalDb)
  | failed (claimed : Bool) (error : AppError)
  | threw

def claimFor (db : ApprovalDb) (now : Time) (record : ApprovalRecord)
    (input : ApprovalDecision) (status : ApprovalStatus) :
    Except AppError (ApprovalDb × ApprovalRecord) :=
  match claim db ⟨record.id, status, input.deciderUserId, input.note⟩ now with
  | none => .error (approvalWriteFailed "approval claim failed")
  | some (_, none) => .error alreadyDecided
  | some (db, some claimed) =>
      .ok (db.announce (.decided status input.note) record (some input.deciderUserId), claimed)

def rejectTransaction (db : ApprovalDb) (now : Time) (record : ApprovalRecord)
    (input : ApprovalDecision) : Outcome :=
  match claimFor db now record input .rejected with
  | .error error => .failed false error
  | .ok (db, _) => .committed db

def approveTransaction (db : ApprovalDb) (now : Time) (record : ApprovalRecord)
    (input : ApprovalDecision) (run : HandlerRun) : Outcome :=
  match claimFor db now record input .approved with
  | .error error => .failed false error
  | .ok (db, claimed) =>
      match readApprovedAction safeParse claimed with
      | .error error => .failed true error
      | .ok _ =>
          match run with
          | .threw => .threw
          | .failed error => .failed true error
          | .ok staff =>
              let executed := { db with staff := staff, effects := db.effects ++ [claimed.id] }
              match markExecuted executed claimed.id claimed.version with
              | (_, false) => .failed true alreadyDecided
              | (marked, true) =>
                  .committed (marked.announce .executed record (some input.deciderUserId))

/-- The transaction of `recordFailure`; one that fails changes nothing. -/
def failureTransaction (db : ApprovalDb) (now : Time) (record : ApprovalRecord)
    (input : ApprovalDecision) (reason : String) : ApprovalDb :=
  match markFailed db ⟨record.id, input.deciderUserId, input.note, reason⟩ now with
  | none => db
  | some (_, false) => db
  | some (marked, true) => marked.announce (.failed reason) record (some input.deciderUserId)

/-! ## Withdrawing -/

/-- What `cancel` does before its transaction. -/
def loadCancel (db : ApprovalDb) (approvalId userId : String) : Except AppError ApprovalRecord :=
  match db.approvals.find? approvalId with
  | none => .error approvalNotFound
  | some record =>
      if record.requestedBy ≠ userId then .error approvalNotFound
      else if record.status ≠ .pending then .error alreadyDecided
      else .ok record

def cancelTransaction (db : ApprovalDb) (now : Time) (record : ApprovalRecord)
    (userId : String) : Except AppError ApprovalDb :=
  match cancel db record.id userId now with
  | (_, []) => .error alreadyDecided
  | (cancelled, _ :: _) => .ok (cancelled.announce .cancelled record (some userId))

/-! ## Sweeping -/

def expireTransaction (db : ApprovalDb) (now : Time) (batch : List String) : ApprovalDb :=
  let (swept, due) := expireDue db batch now
  swept.announceAll .expired due

def closeTransaction (db : ApprovalDb) (now : Time) (userId : String) : ApprovalDb :=
  let (swept, closed) := closeForDeletedUser db userId now
  swept.announceAll .cancelled closed

/-! ## Side by side -/

inductive DecisionStage
  | loaded
  | holding
  | closing (reason : String)

structure PendingDecision where
  input : ApprovalDecision
  record : ApprovalRecord
  stage : DecisionStage

structure ApprovalState where
  clock : Time
  db : ApprovalDb
  gates : List (ApprovalRequest × JsValue)
  decisions : List PendingDecision
  cancels : List (ApprovalRecord × String)

inductive ApprovalEvent
  | beginGate (input : ApprovalRequest) (prepared : Except AppError JsValue)
  | commitGate (i : Nat) (id : String)
  | beginDecide (input : ApprovalDecision) (authorized : Except AppError Unit)
  | readRequester (i : Nat)
  | commitDecision (i : Nat) (run : HandlerRun)
  | commitFailure (i : Nat)
  | beginCancel (approvalId userId : String)
  | commitCancel (i : Nat)
  | expireDue (batch : List String) (limit : Nat)
  | closeForDeletedUser (userId : String)
  | changeStaff (staff : StaffDb)
  | wait (n : Nat)

def ApprovalState.setStage (s : ApprovalState) (i : Nat) (d : PendingDecision)
    (stage : DecisionStage) : ApprovalState :=
  { s with decisions := s.decisions.set i { d with stage := stage } }

/-- The decision is over. -/
def ApprovalState.endDecision (s : ApprovalState) (i : Nat) : ApprovalState :=
  { s with decisions := s.decisions.eraseIdx i }

def decisionTransaction (db : ApprovalDb) (now : Time) (d : PendingDecision)
    (run : HandlerRun) : Outcome :=
  match d.input.decision with
  | .reject => rejectTransaction db now d.record d.input
  | .approve => approveTransaction safeParse db now d.record d.input run

def ApprovalState.afterDecision (s : ApprovalState) (i : Nat) (d : PendingDecision) :
    Outcome → ApprovalState
  | .committed db => { s.endDecision i with db := db }
  | .failed true error => s.setStage i d (.closing error.code)
  | .failed false _ => s.endDecision i
  | .threw => s.endDecision i

def approvalStep (s : ApprovalState) : ApprovalEvent → Option ApprovalState
  | .beginGate input prepared =>
      match prepareGate settings s.db.staff input prepared with
      | .ok (some params) => some { s with gates := s.gates ++ [(input, params)] }
      | _ => some s
  | .commitGate i id => do
      let (input, params) ← s.gates[i]?
      let s := { s with gates := s.gates.eraseIdx i }
      match gateTransaction settings s.db s.clock id input params with
      | .ok (db, _) => some { s with db := db }
      | .error _ => some s
  | .beginDecide input authorized =>
      match loadDecision safeParse s.db s.clock input authorized with
      | .ok record => some { s with decisions := s.decisions ++ [⟨input, record, .loaded⟩] }
      | .error _ => some s
  | .readRequester i => do
      let d ← s.decisions[i]?
      match d.stage with
      | .loaded =>
          if requesterHolds env s.db.staff s.clock d.record then some (s.setStage i d .holding)
          else some (s.setStage i d (.closing requesterLost.code))
      | _ => none
  | .commitDecision i run => do
      let d ← s.decisions[i]?
      match d.stage with
      | .holding => some (s.afterDecision i d (decisionTransaction safeParse s.db s.clock d run))
      | _ => none
  | .commitFailure i => do
      let d ← s.decisions[i]?
      match d.stage with
      | .closing reason =>
          some { s.endDecision i with
            db := failureTransaction s.db s.clock d.record d.input reason }
      | _ => none
  | .beginCancel approvalId userId =>
      match loadCancel s.db approvalId userId with
      | .ok record => some { s with cancels := s.cancels ++ [(record, userId)] }
      | .error _ => some s
  | .commitCancel i => do
      let (record, userId) ← s.cancels[i]?
      let s := { s with cancels := s.cancels.eraseIdx i }
      match cancelTransaction s.db s.clock record userId with
      | .ok db => some { s with db := db }
      | .error _ => some s
  | .expireDue batch limit =>
      -- rows another transaction has locked are skipped, so any due rows
      if batch.length ≤ limit && batch.all fun id =>
          (s.db.approvals.find? id).any (pendingAndDue s.clock) then
        some { s with db := expireTransaction s.db s.clock batch }
      else none
  | .closeForDeletedUser userId => some { s with db := closeTransaction s.db s.clock userId }
  | .changeStaff staff => some { s with db := { s.db with staff := staff } }
  | .wait n => some { s with clock := s.clock + n }

end Service

end CleanStack.Admin
