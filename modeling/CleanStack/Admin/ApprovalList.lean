import CleanStack.Admin.ApprovalStore
import CleanStack.Http.TimeIdCursor
import CleanStack.Lib.Pages

/-!
# The approvals list

The query of the approvals route, the list of its store and the page its service
makes of it. `created_at` has the precision of a date here, and is written as
one; a full page is taken to have another behind it. An id is a `uuidv7()`, so
it is not empty.
-/

namespace CleanStack.Admin

open CleanStack.Kit CleanStack.Drizzle CleanStack.Http CleanStack.Lib CleanStack.AccessControl

structure ApprovalListRow where
  id : String
  id_ne : id ≠ ""
  action : ApprovalAction
  subjectId : String
  params : JsValue
  requestedBy : String
  status : ApprovalStatus
  decidedBy : Option String
  decisionNote : Option String
  failureReason : Option String
  expiresAt : JsDate
  decidedAt : Option JsDate
  createdAt : JsDate
  version : Nat

instance : Keyed ApprovalListRow String := ⟨ApprovalListRow.id⟩

structure ListApprovalsInput where
  status : Option ApprovalStatus
  cursor : Option TimeIdCursor
  limit : Nat

/-- The query as it arrives: its cursor is a text. -/
structure ListApprovalsQuery where
  status : Option ApprovalStatus
  cursor : Option String
  limit : Nat

def approvalKey (collation : Collation) (r : ApprovalListRow) : Int ×ₗ List Nat :=
  toLex (dateMicros r.createdAt, collation.sortKey r.id)

def approvalCursorOf (r : ApprovalListRow) : String :=
  encodeTimeIdCursor (toISOString r.createdAt) r.id

def withStatus (status : Option ApprovalStatus) (r : ApprovalListRow) : Bool :=
  status.all fun s => r.status = s

variable (collation : Collation) (order : Descending (approvalKey collation))
  (other : String → Option Int) (table : Table ApprovalListRow)

/-- `DrizzleApprovalStore.list` -/
def storedApprovals (input : ListApprovalsInput) : Except AppError (List ApprovalListRow) :=
  match input.cursor with
  | none =>
      .ok ((order.arrange (table.rows.filter (withStatus input.status))).take input.limit)
  | some cursor =>
      match asTimestamptz other cursor.atText with
      | none => .error ⟨"ADMIN_APPROVAL_PROVIDER_FAILURE", "approval list failed"⟩
      | some instant =>
          .ok ((order.arrange (table.rows.filter fun r =>
            withStatus input.status r &&
              afterTimeIdCursor collation instant cursor.id (dateMicros r.createdAt) r.id)).take
                input.limit)

/-- `ApprovalService.list` -/
def approvalPage (input : ListApprovalsInput) :
    Except AppError (Page ApprovalListRow String) := do
  let items ← storedApprovals collation order other table input
  let isFull := items.length = input.limit
  .ok ⟨items, if isFull then items.getLast?.map approvalCursorOf else none⟩

/-- A cursor that does not parse refuses the request. -/
def parsedCursor : Option String → Except AppError (Option TimeIdCursor)
  | none => .ok none
  | some raw =>
      match timeIdCursorSchema raw with
      | .ok cursor => .ok (some cursor)
      | .error message => .error ⟨"REQUEST_INVALID", "cursor: " ++ message⟩

def listApprovals (query : ListApprovalsQuery) : Except AppError (Page ApprovalListRow String) := do
  let cursor ← parsedCursor query.cursor
  approvalPage collation order other table ⟨query.status, cursor, query.limit⟩

end CleanStack.Admin
