import CleanStack.Notifications.Feed
import CleanStack.Webhooks.DeliveryList
import Mathlib.Order.Lattice

/-!
# What timestamp cursors leave out

The webhook deliveries and the notification feed go on from the creation date of
a page's last row, which lacks the microseconds and says nothing of other rows
of the same time. The rows between that date and the last row, and those of its
time, are on no page.

So a list is visited whole exactly when, wherever a page ends, the next row is
from before the millisecond of the last one.
-/

namespace CleanStack.Webhooks

open CleanStack.Kit CleanStack.Drizzle CleanStack.Lib

variable (order : Descending createdMicros) (other : String → Option JsDate)
  (endpoints : EndpointTable) (deliveries : Table DeliveryListRow) (args : ListDeliveriesArgs)

theorem toISOString_ne_empty (d : JsDate) : toISOString d ≠ "" := by
  intro h
  have hchars := congrArg String.toList h
  rw [toISOString, String.toList_ofList, fieldsText_eq] at hchars
  simp [clockText] at hchars

theorem beforeCursor_cursorOf (x r : DeliveryListRow) :
    beforeCursor other (some (deliveryCursorOf x)) r =
      decide (createdMicros r < wholeMillis (createdMicros x)) := by
  have hcursor : cursorDate other (some (deliveryCursorOf x)) = some x.createdAt.date := by
    rw [cursorDate, deliveryCursorOf, Option.filter_some,
      if_pos (by simpa using toISOString_ne_empty _), Option.bind_some, newDate_toISOString]
  rw [beforeCursor, hcursor, Option.all_some, dateMicros_date]
  rfl

def deliveriesPaged : Paged DeliveryListRow String Int where
  rows := deliveries.rows.filter (listed endpoints args)
  key := createdMicros
  order := order
  admits := beforeCursor other
  cursorOf := deliveryCursorOf
  bound := wholeMillis
  bound_le := wholeMillis_le
  admits_none _ _ := rfl
  admits_cursorOf x _ r _ := beforeCursor_cursorOf other x r

def deliveryLimit (args : ListDeliveriesArgs) : Nat := min (args.limit.getD 50) 200

theorem deliveryLimit_pos (hlimit : ∀ n, args.limit = some n → 0 < n) :
    0 < deliveryLimit args := by
  unfold deliveryLimit
  cases h : args.limit with
  | none => simp
  | some n =>
      have := hlimit n h
      rw [Option.getD_some]
      omega

theorem deliveryPage_eq (limit : Nat) (rows : List DeliveryListRow) :
    deliveryPage limit rows =
      ⟨rows.take limit,
        if limit < rows.length then (rows.take limit).getLast?.map deliveryCursorOf else none⟩ := by
  unfold deliveryPage
  by_cases hmore : limit < rows.length
  · simp only [if_pos hmore]
  · simp only [if_neg hmore, List.take_of_length_le (Nat.le_of_not_lt hmore)]

theorem list_eq_page (cursor : Option String) :
    list order other endpoints deliveries { args with cursor := cursor } =
      (deliveriesPaged order other endpoints deliveries args).page
        (Paged.lookahead (deliveryLimit args)) (deliveryLimit args) cursor := by
  have hwhere : (deliveries.rows.filter fun d =>
      listed endpoints args d && beforeCursor other cursor d) =
      (deliveries.rows.filter (listed endpoints args)).filter (beforeCursor other cursor) := by
    rw [List.filter_filter]
    apply List.filter_congr
    intro d _
    exact Bool.and_comm _ _
  rw [Paged.page_lookahead_eq rfl]
  show deliveryPage (deliveryLimit args) ((order.arrange (deliveries.rows.filter fun d =>
    listed endpoints args d && beforeCursor other cursor d)).take (deliveryLimit args + 1)) = _
  rw [hwhere, deliveryPage_eq]
  rfl

theorem deliveries_visited_iff (hlimit : ∀ n, args.limit = some n → 0 < n) :
    VisitsEverything
        (fun cursor => some
          (list order other endpoints deliveries { args with cursor := cursor }))
        (deliveries.rows.filter (listed endpoints args)) createdMicros ↔
      Apart wholeMillis (deliveryLimit args)
        (fromGreatest ((deliveries.rows.filter (listed endpoints args)).map createdMicros)) :=
  Paged.visitsEverything_iff (p := deliveriesPaged order other endpoints deliveries args)
    (Paged.continues_lookahead (deliveryLimit_pos args hlimit))
    fun cursor _ => congrArg some (list_eq_page order other endpoints deliveries args cursor)

end CleanStack.Webhooks

namespace CleanStack.Notifications

open CleanStack.Kit CleanStack.Drizzle CleanStack.Lib

variable (order : Descending createdMicros) (other : String → Option JsDate)
  (table : Table FeedRow) (userId : String) (limit : Nat)

def feedAdmits (other : String → Option JsDate) (cursor : Option String) (n : FeedRow) : Bool :=
  match cursor with
  | none => true
  | some text => (newDate other text).any fun date => createdMicros n < dateMicros date

theorem feedAdmits_cursorOf (x r : FeedRow) :
    feedAdmits other (some (feedCursorOf x)) r =
      decide (createdMicros r < wholeMillis (createdMicros x)) := by
  have hdate : newDate other (feedCursorOf x) = some x.createdAt.date :=
    newDate_toISOString other _
  simp only [feedAdmits, hdate, Option.any_some, dateMicros_date]
  rfl

def feedPaged : Paged FeedRow String Int where
  rows := table.rows.filter fun n => n.userId = userId
  key := createdMicros
  order := order
  admits := feedAdmits other
  cursorOf := feedCursorOf
  bound := wholeMillis
  bound_le := wholeMillis_le
  admits_none _ _ := rfl
  admits_cursorOf x _ r _ := feedAdmits_cursorOf other x r

theorem after_feedPaged (cursor : Option String) :
    (feedPaged order other table userId).after cursor =
      order.arrange ((table.rows.filter fun n => n.userId = userId).filter
        (feedAdmits other cursor)) :=
  rfl

theorem feed_of_list {cursor : Option String} {items : List FeedRow}
    (h : list order other table userId cursor limit = .ok items) :
    feed order other table userId cursor limit =
      .ok ⟨items, if items.length = limit then items.getLast?.map feedCursorOf else none⟩ := by
  rw [feed, h]
  rfl

theorem feed_eq_page {cursor : Option String}
    (hissued : (feedPaged order other table userId).Issued cursor) :
    feed order other table userId cursor limit =
      .ok ((feedPaged order other table userId).page (Paged.fullPage limit) limit cursor) := by
  have hlist : list order other table userId cursor limit =
      .ok (((feedPaged order other table userId).after cursor).take limit) := by
    cases cursor with
    | none =>
        rw [Paged.after_none]
        rfl
    | some c =>
        obtain ⟨x, -, hc⟩ := hissued c rfl
        obtain rfl : feedCursorOf x = c := hc
        have hdate : newDate other (feedCursorOf x) = some x.createdAt.date :=
          newDate_toISOString other _
        rw [after_feedPaged, List.filter_filter]
        simp only [list, hdate, feedAdmits, Option.any_some, Bool.and_comm]
  rw [feed_of_list order other table userId limit hlist, Paged.page_fullPage_eq rfl]
  rfl

theorem feed_visited_iff (hlimit : 0 < limit) :
    VisitsEverything
        (fun cursor => (feed order other table userId cursor limit).toOption)
        (table.rows.filter fun n => n.userId = userId) createdMicros ↔
      Apart wholeMillis limit
        (fromGreatest ((table.rows.filter fun n => n.userId = userId).map createdMicros)) := by
  refine Paged.visitsEverything_iff (p := feedPaged order other table userId)
    (Paged.continues_fullPage hlimit) ?_
  intro cursor hissued
  rw [feed_eq_page order other table userId limit hissued]
  rfl

end CleanStack.Notifications

namespace CleanStack.Http

open CleanStack.Kit CleanStack.Drizzle CleanStack.Lib CleanStack.Webhooks CleanStack.Notifications

/-- Each list is visited whole exactly when no page of it ends before a row of
its last row's time, or of the same millisecond as its last row. -/
theorem timestamp_lists_visit_everything_iff (other : String → Option JsDate)
    (deliveryOrder : Descending Webhooks.createdMicros) (endpoints : EndpointTable)
    (deliveries : Table DeliveryListRow) (args : ListDeliveriesArgs)
    (feedOrder : Descending Notifications.createdMicros) (notifications : Table FeedRow)
    (userId : String) (limit : Nat) (hargs : ∀ n, args.limit = some n → 0 < n)
    (hlimit : 0 < limit) :
    (VisitsEverything
          (fun cursor => some (Webhooks.list deliveryOrder other endpoints deliveries
            { args with cursor := cursor }))
          (deliveries.rows.filter (listed endpoints args)) Webhooks.createdMicros ↔
        Apart wholeMillis (deliveryLimit args) (fromGreatest
          ((deliveries.rows.filter (listed endpoints args)).map Webhooks.createdMicros))) ∧
      (VisitsEverything
          (fun cursor => (feed feedOrder other notifications userId cursor limit).toOption)
          (notifications.rows.filter fun n => n.userId = userId) Notifications.createdMicros ↔
        Apart wholeMillis limit (fromGreatest
          ((notifications.rows.filter fun n => n.userId = userId).map
            Notifications.createdMicros))) :=
  ⟨deliveries_visited_iff deliveryOrder other endpoints deliveries args hargs,
    feed_visited_iff feedOrder other notifications userId limit hlimit⟩

/-! ## Two rows of one millisecond -/

def shownEndpoint : WebhookEndpointRow where
  id := "endpoint"
  organizationId := "acme"
  url := "https://acme.example/hook"
  secretCipher := "sealed"
  previousSecretCipher := none
  previousSecretExpiresAt := none
  eventTypes := []
  enabled := true
  consecutiveFailures := 0
  firstFailedAt := none
  disabledAt := none

def shownEndpoints : EndpointTable where
  rows := [shownEndpoint]
  nodup := by decide

theorem shown_inRange :
    -8640000000000000 ≤ (1793378460816 : Int) ∧ (1793378460816 : Int) ≤ 8640000000000000 := by
  decide

theorem shown_micro : 759 < 1000 := by decide

def shownTime (micro : Nat) (micro_lt : micro < 1000) : Timestamp :=
  ⟨⟨1793378460816, shown_inRange⟩, micro, micro_lt⟩

def shownDelivery (id : String) : DeliveryListRow where
  id := id
  endpointId := "endpoint"
  outboxEventId := id
  eventType := "member.joined"
  payload := .obj []
  status := .success
  attempts := 1
  nextAttemptAt := none
  lastError := none
  lastResponseStatus := some 200
  idempotencyKey := id
  createdAt := shownTime 759 shown_micro

def shownDeliveries : Table DeliveryListRow where
  rows := [shownDelivery "first", shownDelivery "second"]
  nodup := by decide

def shownArgs (limit : Nat) : ListDeliveriesArgs := ⟨"endpoint", "acme", none, some limit, none⟩

def shownNotification (id : String) (createdAt : Timestamp) : FeedRow where
  id := id
  userId := "ada"
  organizationId := none
  category := "security"
  eventType := "auth.login"
  groupKey := none
  payload := .obj []
  readAt := none
  createdAt := createdAt

def shownNotifications : Table FeedRow where
  rows := [shownNotification "first" (shownTime 250 (by decide)),
    shownNotification "second" (shownTime 750 (by decide))]
  nodup := by decide

/-- With pages of one row, a delivery of the same microsecond is on no page, and
neither is a notification of half a millisecond before. -/
theorem rows_of_one_millisecond_left_out :
    ¬ VisitsEverything
        (fun cursor => some (Webhooks.list (.stable _) (fun _ => none) shownEndpoints
          shownDeliveries { shownArgs 1 with cursor := cursor }))
        (shownDeliveries.rows.filter (listed shownEndpoints (shownArgs 1)))
        Webhooks.createdMicros ∧
      ¬ VisitsEverything
        (fun cursor =>
          (feed (.stable _) (fun _ => none) shownNotifications "ada" cursor 1).toOption)
        (shownNotifications.rows.filter fun n => n.userId = "ada")
        Notifications.createdMicros := by
  constructor
  · rw [deliveries_visited_iff (.stable _) (fun _ => none) shownEndpoints shownDeliveries
      (shownArgs 1) (fun n hn => by obtain rfl := Option.some.inj hn; decide)]
    intro h
    exact absurd (h 1 (by decide) (one_dvd _) (by decide)) (by decide)
  · rw [feed_visited_iff (.stable _) (fun _ => none) shownNotifications "ada" 1 (by decide)]
    intro h
    exact absurd (h 1 (by decide) (one_dvd _) (by decide)) (by decide)

/-- Pages of two rows leave the same rows on one page. -/
theorem timestamp_lists_visit_everything_iff_two_by_two :
    VisitsEverything
        (fun cursor => some (Webhooks.list (.stable _) (fun _ => none) shownEndpoints
          shownDeliveries { shownArgs 2 with cursor := cursor }))
        (shownDeliveries.rows.filter (listed shownEndpoints (shownArgs 2)))
        Webhooks.createdMicros ∧
      VisitsEverything
        (fun cursor =>
          (feed (.stable _) (fun _ => none) shownNotifications "ada" cursor 2).toOption)
        (shownNotifications.rows.filter fun n => n.userId = "ada")
        Notifications.createdMicros := by
  have hlists := timestamp_lists_visit_everything_iff (fun _ => none) (.stable _) shownEndpoints
    shownDeliveries (shownArgs 2) (.stable _) shownNotifications "ada" 2
    (fun n hn => by obtain rfl := Option.some.inj hn; decide) (by decide)
  exact ⟨hlists.1.2 (apart_of_length_le (by decide)),
    hlists.2.2 (apart_of_length_le (by decide))⟩

end CleanStack.Http
