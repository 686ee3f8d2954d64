import CleanStack.Kit.EventDispatcher
import CleanStack.Kit.Utf16
import CleanStack.Lib.Runs
import CleanStack.Outbox.Jitter
import CleanStack.Outbox.Store

/-!
# Outbox relays

A relay claims rows, runs the handlers a row still needs, and settles the row
with what they did. `settle` is the body of the drain loop for one record, from
the outcomes of the handlers on; `relayStep` runs any number of relays against
one table.

A job is one claimed record in the hands of one relay. Its handlers start, the
clock may pass its lease and another relay may claim the row again, and only
then does the job settle, against whatever the row has become. A job that is
abandoned stands for a crash and for a statement that failed.
-/

namespace CleanStack.Outbox

open CleanStack.Lib CleanStack.Drizzle CleanStack.Kit

def OUTBOX_SETTLE_MARGIN_SECONDS : Nat := 10
def OUTBOX_LAST_ERROR_MAX_LENGTH : Nat := 1000
def OUTBOX_EVENT_DEAD : String := "outbox.event_dead"

structure OutboxRelayOptions where
  eventTypes : List String
  batchSize : Nat
  maxAttempts : Int
  leaseSeconds : Nat
  deadRetrySeconds : Nat
  concurrency : Nat
  handlerBudgetSeconds : Nat

/-- A process: its options, and the handlers subscribed when it started. -/
structure Relay where
  options : OutboxRelayOptions
  dispatcher : Dispatcher

def claimLimitOf (options : OutboxRelayOptions) : Nat :=
  let usableLeaseSeconds := options.leaseSeconds - OUTBOX_SETTLE_MARGIN_SECONDS
  let roundsWithinLease := max 1 (usableLeaseSeconds / options.handlerBudgetSeconds)
  min options.batchSize (roundsWithinLease * max 1 options.concurrency)

/-! ## deliver -/

/-- The names every object answers to, whatever its own keys are. -/
def objectPrototypeKeys : List String :=
  ["constructor", "__defineGetter__", "__defineSetter__", "hasOwnProperty",
    "__lookupGetter__", "__lookupSetter__", "isPrototypeOf", "propertyIsEnumerable",
    "toString", "valueOf", "__proto__", "toLocaleString"]

/-- `name in deliveries`. -/
def isIn (name : String) (deliveries : Deliveries) : Bool :=
  deliveries.names.contains name || objectPrototypeKeys.contains name

/-- What became of one started handler. A handler that outran its budget has
failed with the text `timed out`. -/
inductive HandlerRun
  | ok
  | failed (error : String)
  | interrupted
  deriving DecidableEq

def HandlerRun.error? : HandlerRun → Option String
  | .failed error => some error
  | _ => none

inductive Delivery
  | interrupted
  | finished (delivered : Deliveries) (failures : List (String × String))

/-- The handlers `deliver` starts. -/
def toRun (record : OutboxRecord) (names : List String) : List String :=
  names.filter fun name => !isIn name record.deliveries

def deliver (record : OutboxRecord) (names : List String) (runs : List HandlerRun)
    (doneAt : String) : Delivery :=
  let outcomes := (toRun record names).zip runs
  if outcomes.any fun o => o.2 = .interrupted then .interrupted
  else .finished
    ((outcomes.filter fun o => o.2 = .ok).map fun o => (o.1, doneAt))
    (outcomes.filterMap fun o => o.2.error?.map fun error => (o.1, error))

/-! ## settle -/

section Settle

variable (scrubText : String → String)

def storedError (failures : List (String × String)) : String :=
  sliceTo OUTBOX_LAST_ERROR_MAX_LENGTH
    (joinWith "; " (failures.map fun f => f.1 ++ ": " ++ scrubText f.2))

structure FailedDelivery where
  delivered : Deliveries
  failedHandlers : List String
  lastError : String

/-- What a settlement takes from its surroundings: the database clock, the time
of the process, the draw of the retry delay and the id of the event that
announces a death. -/
structure Moment where
  now : Time
  doneAt : String
  random : Draw
  eventId : String

def deathPayload (record : OutboxRecord) (failed : FailedDelivery) : JsValue :=
  .obj [("eventId", .str record.id), ("eventType", .str record.eventType),
    ("aggregateId", .str record.aggregateId),
    ("attempts", .num (.ofInt record.attempts)), ("lastError", .str failed.lastError),
    ("failedHandlers", .arr (failed.failedHandlers.map .str)), ("actorUserId", .null)]

/-- The row `announceDeath` enqueues. -/
def deathEvent (record : OutboxRecord) (failed : FailedDelivery) (m : Moment) :
    OutboxRow where
  id := m.eventId
  eventType := OUTBOX_EVENT_DEAD
  aggregateId := record.id
  aggregateType := "outbox_event"
  organizationId := none
  payload := deathPayload record failed
  requestId := none
  occurredAt := m.now
  dispatchedAt := none
  attempts := 0
  lastError := none
  nextAttemptAt := none
  deadAt := none
  deliveries := []

/-- `INSERT … ON CONFLICT DO NOTHING`. -/
def enqueue (t : OutboxTable) (r : OutboxRow) : OutboxTable := (t.insert r).getD t

def leaseKeyOf (record : OutboxRecord) : LeaseKey := ⟨record.id, record.attempts⟩

def settleFailure (relay : Relay) (t : OutboxTable) (record : OutboxRecord)
    (failed : FailedDelivery) (m : Moment) : OutboxTable :=
  let wasDead := record.deadAt.isSome
  let schedule := failureSchedule record.attempts
    ⟨wasDead, relay.options.maxAttempts, relay.options.deadRetrySeconds⟩ m.random
  let (written, wrote) := markFailed t m.now (leaseKeyOf record)
    ⟨failed.lastError, schedule.retryAfterSeconds, schedule.dead, failed.delivered⟩
  let announces := schedule.dead && !wasDead && record.eventType ≠ OUTBOX_EVENT_DEAD
  if !wrote || !announces then written
  else enqueue written (deathEvent record failed m)

def settleRecord (relay : Relay) (t : OutboxTable) (record : OutboxRecord)
    (runs : List HandlerRun) (m : Moment) : OutboxTable :=
  let names := relay.dispatcher.handlersOf record.eventType
  if names.length = 0 then
    settleFailure relay t record
      ⟨[], [], record.eventType ++ " has no subscriber in this process"⟩ m
  else
    match deliver record names runs m.doneAt with
    | .interrupted => (release t m.now (leaseKeyOf record)).1
    | .finished delivered failures =>
        if failures.length = 0 then
          (markDelivered t m.now (leaseKeyOf record) delivered).1
        else
          settleFailure relay t record
            ⟨delivered, failures.map Prod.fst, storedError scrubText failures⟩ m

end Settle

/-! ## Relays side by side -/

inductive JobPhase
  | claimed
  | running
  | over
  deriving DecidableEq

structure Job where
  relay : Nat
  record : OutboxRecord
  phase : JobPhase

/-- The table, every job there ever was, oldest first, and which job started
which handler. -/
structure RelayState where
  clock : Time
  table : OutboxTable
  jobs : List Job
  started : List (Nat × String)

def RelayState.withPhase (s : RelayState) (j : Nat) (phase : JobPhase) : RelayState :=
  { s with jobs := s.jobs.modify j fun job => { job with phase := phase } }

inductive RelayEvent
  | claim (relay : Nat) (locked : String → Bool)
  | start (j : Nat)
  | settle (j : Nat) (runs : List HandlerRun) (doneAt : String) (random : Draw)
      (eventId : String)
  | giveBack (j : Nat)
  | abandon (j : Nat)
  | requeueDead (ids : List String) (leaseSeconds : Nat)
  | enqueue (r : OutboxRow)
  | wait (n : Nat)

/-- The job, if it is in the phase. -/
def RelayState.jobIn (s : RelayState) (j : Nat) (phase : JobPhase) : Option Job :=
  s.jobs[j]?.filter fun job => job.phase = phase

def relayStep (scrubText : String → String) (relays : Nat → Relay) (s : RelayState) :
    RelayEvent → Option RelayState
  | .claim i locked =>
      let options := (relays i).options
      let (table, rows) := claim s.table s.clock locked
        ⟨claimLimitOf options, options.eventTypes, options.leaseSeconds⟩
      some { s with
        table := table
        jobs := s.jobs ++ rows.map fun r => ⟨i, recordOf r, .claimed⟩ }
  | .start j => do
      let job ← s.jobIn j .claimed
      let names := (relays job.relay).dispatcher.handlersOf job.record.eventType
      some { s.withPhase j .running with
        started := s.started ++ (toRun job.record names).map fun name => (j, name) }
  | .settle j runs doneAt random eventId => do
      let job ← s.jobIn j .running
      let relay := relays job.relay
      let names := relay.dispatcher.handlersOf job.record.eventType
      if runs.length = (toRun job.record names).length then
        some { s.withPhase j .over with
          table := settleRecord scrubText relay s.table job.record runs
            ⟨s.clock, doneAt, random, eventId⟩ }
      else none
  | .giveBack j => do
      let job ← s.jobIn j .claimed
      some { s.withPhase j .over with
        table := (release s.table s.clock (leaseKeyOf job.record)).1 }
  | .abandon j => do
      let _ ← s.jobs[j]?
      some (s.withPhase j .over)
  | .requeueDead ids leaseSeconds =>
      some { s with table := (requeueDead s.table s.clock ids leaseSeconds).1 }
  | .enqueue r => some { s with table := enqueue s.table r }
  | .wait n => some { s with clock := s.clock + n }

/-! ## What a step does -/

section Step

variable {scrubText : String → String} {relays : Nat → Relay} {s t : RelayState}

theorem jobIn_eq_some {j : Nat} {phase : JobPhase} {job : Job}
    (h : s.jobIn j phase = some job) : s.jobs[j]? = some job ∧ job.phase = phase := by
  obtain ⟨h, hphase⟩ := Option.filter_eq_some_iff.1 h
  exact ⟨h, of_decide_eq_true hphase⟩

/-- The handlers subscribed to the type of a job at its relay. -/
def namesOf (relays : Nat → Relay) (job : Job) : List String :=
  (relays job.relay).dispatcher.handlersOf job.record.eventType

theorem settle_eq_some {j : Nat} {runs : List HandlerRun} {doneAt eventId : String}
    {random : Draw}
    (h : relayStep scrubText relays s (.settle j runs doneAt random eventId) = some t) :
    ∃ job, s.jobs[j]? = some job ∧ job.phase = .running ∧
      runs.length = (toRun job.record (namesOf relays job)).length ∧
      t = { s.withPhase j .over with
        table := settleRecord scrubText (relays job.relay) s.table job.record runs
          ⟨s.clock, doneAt, random, eventId⟩ } := by
  obtain ⟨job, hjob, h⟩ := Option.bind_eq_some_iff.1 h
  dsimp only at h
  split at h
  · next hruns =>
      cases h
      obtain ⟨hjob, hphase⟩ := jobIn_eq_some hjob
      exact ⟨job, hjob, hphase, hruns, rfl⟩
  · cases h

end Step

/-! ## One order -/

def orderRow (deliveries : Deliveries) : OutboxRow where
  id := "e1"
  eventType := "order.placed"
  aggregateId := "o1"
  aggregateType := "order"
  organizationId := none
  payload := .null
  requestId := none
  occurredAt := 5
  dispatchedAt := none
  attempts := 0
  lastError := none
  nextAttemptAt := none
  deadAt := none
  deliveries := deliveries

def orderRelay (name : String) (h : HANDLER_NAME name = true) : Relay where
  options := ⟨["order.placed"], 10, 8, 60, 3600, 4, 5⟩
  dispatcher :=
    { handlers := [("order.placed", [name])]
      named := by simpa using h
      distinct := by simp }

theorem mail_named : HANDLER_NAME "mail" = true := by decide

def orderState : RelayState := ⟨9, ⟨[orderRow []], List.nodup_singleton _⟩, [], []⟩

def orderTaken : List RelayEvent := [.claim 0 fun _ => false, .start 0]

example : (exec (relayStep id fun _ => orderRelay "mail" (by decide +kernel)) orderState
    orderTaken).map RelayState.started = some [(0, "mail")] := by
  decide +kernel

end CleanStack.Outbox
