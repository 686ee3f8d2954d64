import CleanStack.Admin.StaffService
import CleanStack.Drizzle.Columns
import CleanStack.Kit.JsValue
import CleanStack.Lib.Pages
import CleanStack.Lib.Table

/-!
# The notification feed

`DrizzleNotificationStore.list` and the page the feed's route makes of it: a
user's notifications, latest first. A cursor is the creation date of a page's
last row, and one that is no date fails the request, because no parameter can be
made of it. A full page is taken to have another behind it.
-/

namespace CleanStack.Notifications

open CleanStack.Kit CleanStack.Drizzle CleanStack.Lib
open CleanStack.Admin (AppError)

structure FeedRow where
  id : String
  userId : String
  organizationId : Option String
  category : String
  eventType : String
  groupKey : Option String
  payload : JsValue
  readAt : Option JsDate
  createdAt : Timestamp

instance : Keyed FeedRow String := ⟨FeedRow.id⟩

def createdMicros (n : FeedRow) : Int := n.createdAt.micros

/-- `readFailure("list")` -/
def listFailure : AppError :=
  ⟨"NOTIFICATION_PROVIDER_FAILURE", "database operation failed: list"⟩

def feedCursorOf (n : FeedRow) : String := toISOString n.createdAt.date

variable (order : Descending createdMicros) (other : String → Option JsDate)
  (table : Table FeedRow)

def list (userId : String) (cursor : Option String) (limit : Nat) :
    Except AppError (List FeedRow) :=
  match cursor with
  | none => .ok ((order.arrange (table.rows.filter fun n => n.userId = userId)).take limit)
  | some text =>
      match newDate other text with
      | none => .error listFailure
      | some date =>
          .ok ((order.arrange (table.rows.filter fun n =>
            n.userId = userId && createdMicros n < dateMicros date)).take limit)

/-- `GET /` of the notification routes. -/
def feed (userId : String) (cursor : Option String) (limit : Nat) :
    Except AppError (Page FeedRow String) := do
  let notifications ← list order other table userId cursor limit
  .ok ⟨notifications,
    if notifications.length = limit then notifications.getLast?.map feedCursorOf else none⟩

end CleanStack.Notifications
