import CleanStack.Admin.StaffService
import CleanStack.Audit.Log
import CleanStack.Http.TimeIdCursor
import CleanStack.Lib.Pages

/-!
# The audit list

`DrizzleAuditRepository.list`: the audit rows that some filters select, latest
first and within one time by id, in pages. A row that `record` writes has a
`uuidv7()` for its id and one that the event handler writes an id of its own with
a prefix, so an id is not empty.

A filter that is the empty string is none. A cursor that does not parse is left
out of the statement, and one whose time the database cannot read fails it.
-/

namespace CleanStack.Audit

open CleanStack.Kit CleanStack.Drizzle CleanStack.Http CleanStack.Lib
open CleanStack.Admin (AppError)

structure AuditListRow extends AuditRow where
  id_ne : id ≠ ""

instance : Keyed AuditListRow String := ⟨fun r => r.id⟩

def DEFAULT_LIMIT : Nat := 50

def MAX_LIMIT : Nat := 500

/-- `organizationId` is left out, `null` or an id. -/
structure AuditFilters where
  actorId : Option String
  organizationId : Option (Option String)
  targetType : Option String
  targetId : Option String
  actionPrefix : Option String
  occurredFrom : Option JsDate
  occurredTo : Option JsDate
  limit : Option Nat
  cursor : Option String

/-- `LIKE`: `%` is any characters, `_` is one, and a backslash takes the next
character for itself. -/
def like : List Char → List Char → Bool
  | [], cs => cs.isEmpty
  | '%' :: ps, cs => cs.tails.any (like ps)
  | '_' :: ps, cs =>
      match cs with
      | _ :: cs => like ps cs
      | [] => false
  | '\\' :: p :: ps, cs =>
      match cs with
      | c :: cs => c = p && like ps cs
      | [] => false
  | p :: ps, cs =>
      match cs with
      | c :: cs => c = p && like ps cs
      | [] => false

/-- A filter that is set. -/
def truthy (filter : Option String) : Option String := filter.filter (· ≠ "")

/-- The conditions of the filters, the cursor's apart. -/
def selected (filters : AuditFilters) (r : AuditListRow) : Bool :=
  (truthy filters.actorId).all (fun v => r.actorId = some v) &&
    filters.organizationId.all (fun v => r.organizationId = v) &&
    (truthy filters.targetType).all (fun v => r.targetType = v) &&
    (truthy filters.targetId).all (fun v => r.targetId = v) &&
    (truthy filters.actionPrefix).all
      (fun v => like (v ++ "%").toList r.action.toList) &&
    filters.occurredFrom.all (fun d => dateMicros d ≤ r.occurredAt.micros) &&
    filters.occurredTo.all (fun d => r.occurredAt.micros ≤ dateMicros d)

def auditKey (collation : Collation) (r : AuditListRow) : Int ×ₗ List Nat :=
  toLex (r.occurredAt.micros, collation.sortKey r.id)

def auditCursorOf (r : AuditListRow) : String := encodeTimeIdCursor (columnText r.occurredAt) r.id

/-- One row more than the limit was read. -/
def auditPage (limit : Nat) (rows : List AuditListRow) : Page AuditListRow String :=
  let page := rows.take limit
  ⟨page, if limit < rows.length then page.getLast?.map auditCursorOf else none⟩

variable (collation : Collation) (order : Descending (auditKey collation))
  (other : String → Option Int) (table : Table AuditListRow)

def list (filters : AuditFilters) : Except AppError (Page AuditListRow String) :=
  let limit := min (filters.limit.getD DEFAULT_LIMIT) MAX_LIMIT
  match filters.cursor.bind fun raw => (timeIdCursorSchema raw).toOption with
  | none =>
      .ok (auditPage limit
        ((order.arrange (table.rows.filter (selected filters))).take (limit + 1)))
  | some cursor =>
      match asTimestamp other cursor.atText with
      | none => .error ⟨"AUDIT_PERSISTENCE_PROVIDER_FAILURE", "audit list failed"⟩
      | some instant =>
          .ok (auditPage limit ((order.arrange (table.rows.filter fun r =>
            selected filters r &&
              afterTimeIdCursor collation instant cursor.id r.occurredAt.micros r.id)).take
                (limit + 1)))

end CleanStack.Audit
