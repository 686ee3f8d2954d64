import CleanStack.Drizzle.Columns
import CleanStack.Lib.Pages
import CleanStack.Webhooks.EndpointStore
import CleanStack.Webhooks.Store

/-!
# The webhook delivery list

`DrizzleWebhookDeliveryRepository.list`: the deliveries of an endpoint of the
organization, latest first, in pages. A cursor is the creation date of a page's
last row; one that is no date is left out of the statement. Here a row's creation
time is the column's, to the microsecond.
-/

namespace CleanStack.Webhooks

open CleanStack.Kit CleanStack.Drizzle CleanStack.Lib

structure DeliveryListRow where
  id : String
  endpointId : String
  outboxEventId : String
  eventType : String
  payload : JsValue
  status : DeliveryStatus
  attempts : Int
  nextAttemptAt : Option JsDate
  lastError : Option String
  lastResponseStatus : Option Nat
  idempotencyKey : String
  createdAt : Timestamp

instance : Keyed DeliveryListRow String := ⟨DeliveryListRow.id⟩

structure ListDeliveriesArgs where
  endpointId : String
  organizationId : String
  status : Option DeliveryStatus
  limit : Option Nat
  cursor : Option String

def createdMicros (d : DeliveryListRow) : Int := d.createdAt.micros

/-- The inner join with the endpoint of the organization, and the conditions but
the cursor's. -/
def listed (endpoints : EndpointTable) (args : ListDeliveriesArgs) (d : DeliveryListRow) : Bool :=
  (endpoints.rows.any fun e => e.id = d.endpointId && e.organizationId = args.organizationId) &&
    d.endpointId = args.endpointId && args.status.all fun s => d.status = s

/-- The empty string is no cursor. -/
def cursorDate (other : String → Option JsDate) (cursor : Option String) : Option JsDate :=
  (cursor.filter (· ≠ "")).bind (newDate other)

def beforeCursor (other : String → Option JsDate) (cursor : Option String) (d : DeliveryListRow) :
    Bool :=
  (cursorDate other cursor).all fun date => createdMicros d < dateMicros date

def deliveryCursorOf (d : DeliveryListRow) : String := toISOString d.createdAt.date

/-- One row more than the limit was read. -/
def deliveryPage (limit : Nat) (rows : List DeliveryListRow) : Page DeliveryListRow String :=
  let hasMore := limit < rows.length
  let items := if hasMore then rows.take limit else rows
  ⟨items, if hasMore then items.getLast?.map deliveryCursorOf else none⟩

variable (order : Descending createdMicros) (other : String → Option JsDate)
  (endpoints : EndpointTable) (deliveries : Table DeliveryListRow)

def list (args : ListDeliveriesArgs) : Page DeliveryListRow String :=
  let limit := min (args.limit.getD 50) 200
  deliveryPage limit ((order.arrange (deliveries.rows.filter fun d =>
    listed endpoints args d && beforeCursor other args.cursor d)).take (limit + 1))

end CleanStack.Webhooks
