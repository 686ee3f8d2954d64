import CleanStack.Audit.Log
import CleanStack.Events.NotificationMap
import CleanStack.Lib.UniqueInserts
import CleanStack.Outbox.Relay
import CleanStack.Webhooks.EndpointStore
import CleanStack.Webhooks.Store

/-!
# The two fan-out subscribers

Two handlers turn one outbox event into many rows: `webhook-fanout` into a
delivery for every endpoint of the organization that wants the event,
`notification-fanout` into a notification for everybody the query selects.
Both insert under a unique index and ignore conflicts, which is all that keeps
a second run of the same event from doubling the first.

`fanoutStep` runs them beside the relays. A handler run begins when a job
starts its handlers, and from then on goes its own way: the relay may stop
waiting for it, and it may commit, or fail, at any time. What ties the two is
that a job reports a handler as done only when its run has returned.

Ids are drawn by `uuidv7`, so the id of an event has the shape of a UUID, and
the id of a deleted endpoint is never given again. What the delivery worker
does to a row later is left out; it touches none of the columns here. Whom the
notification query selects depends on members, staff and preferences, and is an
argument of the step that runs it.
-/

namespace CleanStack.Fanout

open CleanStack.Lib CleanStack.Kit CleanStack.Drizzle CleanStack.Events CleanStack.Outbox
open CleanStack.Webhooks (DeliveryRow EndpointTable WebhookEndpointRow UpdateEndpointArgs
  updateEndpoint markDisabled)

def WEBHOOK_FANOUT : String := "webhook-fanout"
def NOTIFICATION_FANOUT : String := "notification-fanout"

/-! ## webhook-fanout -/

/-- `${eventId}:${endpointId}`. -/
def idempotencyKeyOf (eventId endpointId : String) : String := eventId ++ ":" ++ endpointId

/-- The organization whose endpoints a run looks at, when it looks at any. -/
def deliverableTo (record : OutboxRecord) : Option String :=
  match record.organizationId with
  | none => none
  | some organizationId =>
      if organizationId = "" then none
      else if isKnownEventType record.eventType && isPublicEvent record.eventType then
        some organizationId
      else none

/-- The endpoints of the query that match the event. -/
def wantedBy (endpoints : EndpointTable) (organizationId eventType : String) :
    List WebhookEndpointRow :=
  endpoints.rows.filter fun e =>
    decide (e.organizationId = organizationId) && e.enabled &&
      matchesSubscription eventType e.eventTypes

def deliveryRow (record : OutboxRecord) (now : Time) (id endpointId : String) : DeliveryRow where
  id := id
  endpointId := endpointId
  outboxEventId := record.id
  eventType := record.eventType
  payload := record.payload
  status := .pending
  attempts := 0
  nextAttemptAt := some now
  lastError := none
  lastResponseStatus := none
  idempotencyKey := idempotencyKeyOf record.id endpointId
  createdAt := now

/-! ## notification-fanout -/

structure NotificationRow where
  id : String
  userId : String
  organizationId : Option String
  category : NotificationCategory
  eventType : String
  groupKey : Option String
  dedupKey : String
  payload : JsValue
  emailPendingAt : Option Time

inductive AudienceTarget
  | user (userId : String)
  | org (organizationId : String)
  | staff
  deriving DecidableEq, Repr

def SELF_KEYS : List String := ["userId", "ownerUserId"]

def resolveAudience (audience : Audience) (record : OutboxRecord) : Option AudienceTarget :=
  match audience with
  | .self => (Audit.readUserId record.payload SELF_KEYS).map .user
  | .actor => (Audit.readActorId record.payload).map .user
  | .staff => some .staff
  | .orgAll | .can => record.organizationId.map .org

/-- The `Date` a timestamp is read as, if there is one. -/
def dateOf (t : Time) : Option JsDate :=
  if h : t / 1000 ≤ 8640000000000000 then
    some ⟨((t / 1000 : Nat) : Int), by omega, by exact_mod_cast h⟩
  else none

def dedupKeyFor (record : OutboxRecord) (occurred : JsDate) : Option DedupWindow → String
  | none => "event:" ++ record.id
  | some window =>
      let iso := (toISOString occurred).toList
      let bucket := String.ofList (iso.take (match window with
        | .hour => 13
        | .day => 10))
      record.eventType ++ ":" ++ record.aggregateId ++ ":" ++ bucket

/-- A row the query selects: an id drawn for it, the recipient, and when the
e-mail is due. -/
structure Selected where
  id : String
  userId : String
  emailPendingAt : Option Time

def notificationRow (record : OutboxRecord) (config : NotificationConfig) (occurred : JsDate)
    (r : Selected) : NotificationRow where
  id := r.id
  userId := r.userId
  organizationId := record.organizationId
  category := config.category
  eventType := record.eventType
  groupKey := config.groupBy.map fun _ => record.eventType ++ ":" ++ record.aggregateId
  dedupKey := dedupKeyFor record occurred config.dedupWindow
  payload := record.payload
  emailPendingAt := r.emailPendingAt

/-! ## Runs of a handler -/

inductive RunPhase (ρ : Type)
  | entered
  /-- In its transaction, with the rows its statement has still to put through. -/
  | inserting (todo : List ρ)
  | returned
  | thrown

structure Run (ρ : Type) where
  job : Nat
  record : OutboxRecord
  phase : RunPhase ρ

/-- What `webhook-fanout` does up to its insert; `ids` are the ids it draws. -/
def enterWebhook (endpoints : EndpointTable) (now : Time) (ids : String → String)
    (record : OutboxRecord) : RunPhase DeliveryRow :=
  match deliverableTo record with
  | none => .returned
  | some organizationId =>
      let wanted := wantedBy endpoints organizationId record.eventType
      if wanted.length = 0 then .returned
      else .inserting (wanted.map fun e => deliveryRow record now (ids e.id) e.id)

/-- What `notification-fanout` does up to its insert. A date no `Date` holds
throws when it is printed. -/
def enterNotification (selected : List Selected) (record : OutboxRecord) :
    RunPhase NotificationRow :=
  match notificationConfigOf record.eventType with
  | none => .returned
  | some config =>
      match resolveAudience config.audience record with
      | none => .returned
      | some target =>
          match dateOf record.occurredAt with
          | none => .thrown
          | some occurred =>
              .inserting ((selected.filter fun r =>
                match target with
                | .user userId => r.userId = userId
                | _ => true).map (notificationRow record config occurred))

/-! ## The system -/

structure FanoutState where
  relay : RelayState
  endpoints : EndpointTable
  /-- The ids endpoints were ever given. -/
  endpointIds : List String
  deliveries : Inserts DeliveryRow
  /-- Every delivery the fan-out has committed, whatever became of it. -/
  created : List DeliveryRow
  notifications : Inserts NotificationRow
  webhookRuns : List (Run DeliveryRow)
  notificationRuns : List (Run NotificationRow)

def emptySystem (clock : Time) : FanoutState where
  relay := ⟨clock, Table.empty, [], []⟩
  endpoints := Table.empty
  endpointIds := []
  deliveries := Inserts.empty
  created := []
  notifications := Inserts.empty
  webhookRuns := []
  notificationRuns := []

/-- The index of `webhook_delivery`. -/
def deliveryKey (r : DeliveryRow) : String := r.idempotencyKey

/-- The index of `notification`. -/
def notificationKey (r : NotificationRow) : String × String := (r.userId, r.dedupKey)

/-- The characters and the length of a UUID. -/
def isUuid (id : String) : Bool :=
  decide (id.toList.length = 36) &&
    id.toList.all fun c => c = '-' || c.isDigit || (decide ('a' ≤ c) && decide (c ≤ 'f'))

/-- A row as `enqueue` writes it. -/
def isNew (r : OutboxRow) : Bool :=
  isUuid r.id && r.dispatchedAt.isNone && decide (r.attempts = 0) && r.lastError.isNone &&
    r.nextAttemptAt.isNone && r.deadAt.isNone && r.deliveries.isEmpty

/-- The key of a delivery that is sent on request: a test, or one more time. -/
def isDirectKey (key : String) : Bool :=
  "test:".toList.isPrefixOf key.toList || "replay:".toList.isPrefixOf key.toList

inductive FanoutEvent
  | relay (e : RelayEvent)
  | enterWebhook (i : Nat) (ids : String → String)
  | insertDelivery (i : Nat)
  | commitWebhook (i : Nat)
  | failWebhook (i : Nat)
  | enterNotification (i : Nat) (selected : List Selected)
  | insertNotification (i : Nat)
  | commitNotification (i : Nat)
  | failNotification (i : Nat)
  | createEndpoint (r : WebhookEndpointRow)
  | updateEndpoint (args : UpdateEndpointArgs)
  | disableEndpoint (id organizationId : String) (at' : Time)
  | deleteEndpoint (id organizationId : String)
  | deliverDirectly (r : DeliveryRow)

/-- Whether the run of a handler in a job has returned. -/
def hasReturned {ρ : Type} (runs : List (Run ρ)) (j : Nat) : Bool :=
  runs.any fun run =>
    decide (run.job = j) && match run.phase with
      | .returned => true
      | _ => false

/-- What the surroundings allow of a relay step: new rows are as `enqueue` writes
them, ids are UUIDs, and a handler that is reported as done has returned. -/
def allowed (relays : Nat → Relay) (s : FanoutState) : RelayEvent → Bool
  | .enqueue r => isNew r
  | .settle j runs _ _ eventId =>
      isUuid eventId &&
        match s.relay.jobs[j]? with
        | none => false
        | some job =>
            ((toRun job.record (namesOf relays job)).zip runs).all fun outcome =>
              !decide (outcome.2 = .ok) ||
                ((!decide (outcome.1 = WEBHOOK_FANOUT) || hasReturned s.webhookRuns j) &&
                  (!decide (outcome.1 = NOTIFICATION_FANOUT) || hasReturned s.notificationRuns j))
  | _ => true

/-- The run a step begins for a handler, when it starts the handlers of a job. -/
def begun {ρ : Type} (relays : Nat → Relay) (s : FanoutState) (name : String) :
    RelayEvent → List (Run ρ)
  | .start j =>
      match s.relay.jobs[j]? with
      | none => []
      | some job =>
          if (toRun job.record (namesOf relays job)).contains name then
            [⟨j, job.record, .entered⟩]
          else []
  | _ => []

def relayEvent (scrubText : String → String) (relays : Nat → Relay) (s : FanoutState)
    (e : RelayEvent) : Option FanoutState :=
  if allowed relays s e then
    (relayStep scrubText relays s.relay e).map fun relay =>
      { s with
        relay := relay
        webhookRuns := s.webhookRuns ++ begun relays s WEBHOOK_FANOUT e
        notificationRuns := s.notificationRuns ++ begun relays s NOTIFICATION_FANOUT e }
  else none

def FanoutState.setWebhook (s : FanoutState) (i : Nat) (run : Run DeliveryRow)
    (phase : RunPhase DeliveryRow) : FanoutState :=
  { s with webhookRuns := s.webhookRuns.set i { run with phase } }

def FanoutState.setNotification (s : FanoutState) (i : Nat) (run : Run NotificationRow)
    (phase : RunPhase NotificationRow) : FanoutState :=
  { s with notificationRuns := s.notificationRuns.set i { run with phase } }

/-- One row of the insert of a run. A row whose endpoint is gone fails the run,
by its foreign key. -/
def insertDelivery (s : FanoutState) (i : Nat) (run : Run DeliveryRow) : Option FanoutState :=
  match run.phase with
  | .inserting (r :: todo) =>
      match s.endpoints.find? r.endpointId with
      | none => some { s.setWebhook i run .thrown with deliveries := s.deliveries.rollback i }
      | some _ =>
          (Inserts.insertOrIgnore deliveryKey s.deliveries i r).map fun deliveries =>
            { s.setWebhook i run (.inserting todo) with deliveries }
  | _ => none

def insertNotification (s : FanoutState) (i : Nat) (run : Run NotificationRow) :
    Option FanoutState :=
  match run.phase with
  | .inserting (r :: todo) =>
      (Inserts.insertOrIgnore notificationKey s.notifications i r).map fun notifications =>
        { s.setNotification i run (.inserting todo) with notifications }
  | _ => none

def fanoutStep (scrubText : String → String) (relays : Nat → Relay) (s : FanoutState) :
    FanoutEvent → Option FanoutState
  | .relay e => relayEvent scrubText relays s e
  | .enterWebhook i ids =>
      s.webhookRuns[i]?.bind fun run =>
        match run.phase with
        | .entered =>
            some (s.setWebhook i run (enterWebhook s.endpoints s.relay.clock ids run.record))
        | _ => none
  | .insertDelivery i => s.webhookRuns[i]?.bind (insertDelivery s i)
  | .commitWebhook i =>
      s.webhookRuns[i]?.bind fun run =>
        match run.phase with
        | .inserting [] =>
            some { s.setWebhook i run .returned with
              deliveries := s.deliveries.commit i
              created := s.deliveries.pendingOf i ++ s.created }
        | _ => none
  | .failWebhook i =>
      s.webhookRuns[i]?.bind fun run =>
        match run.phase with
        | .returned => none
        | _ => some { s.setWebhook i run .thrown with deliveries := s.deliveries.rollback i }
  | .enterNotification i selected =>
      s.notificationRuns[i]?.bind fun run =>
        match run.phase with
        | .entered => some (s.setNotification i run (enterNotification selected run.record))
        | _ => none
  | .insertNotification i => s.notificationRuns[i]?.bind (insertNotification s i)
  | .commitNotification i =>
      s.notificationRuns[i]?.bind fun run =>
        match run.phase with
        | .inserting [] =>
            some { s.setNotification i run .returned with
              notifications := s.notifications.commit i }
        | _ => none
  | .failNotification i =>
      s.notificationRuns[i]?.bind fun run =>
        match run.phase with
        | .returned => none
        | _ =>
            some { s.setNotification i run .thrown with
              notifications := s.notifications.rollback i }
  | .createEndpoint r =>
      if s.endpointIds.contains r.id || decide (r.organizationId = "") then none
      else
        (s.endpoints.insert r).map fun endpoints =>
          { s with endpoints, endpointIds := r.id :: s.endpointIds }
  | .updateEndpoint args => some { s with endpoints := updateEndpoint s.endpoints args }
  | .disableEndpoint id organizationId at' =>
      some { s with endpoints := markDisabled s.endpoints id organizationId at' }
  | .deleteEndpoint id organizationId =>
      if s.deliveries.pending.any fun p => p.2.endpointId = id then none
      else if s.endpoints.rows.any (Webhooks.ownedBy id organizationId) then
        some { s with
          endpoints := s.endpoints.delete (Webhooks.ownedBy id organizationId)
          deliveries := s.deliveries.delete fun r => r.endpointId = id }
      else some s
  | .deliverDirectly r =>
      if isDirectKey r.idempotencyKey && (s.endpoints.find? r.endpointId).isSome then
        (Inserts.insertNew deliveryKey s.deliveries r).map fun deliveries => { s with deliveries }
      else none

end CleanStack.Fanout
