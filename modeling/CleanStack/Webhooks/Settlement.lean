import CleanStack.Lib.Runs
import CleanStack.Outbox.Jitter
import CleanStack.Webhooks.EndpointStore

/-!
# Settling a delivery

What a worker makes of the outcome of a delivery, in one transaction: the
status of the row, the counter of its endpoint, and the events that announce
an exhausted delivery and a disabled endpoint. `workerStep` runs any number of
workers against one database, beside the owners who edit the endpoints.

A job is one claimed delivery. It is processed first, with the request that
takes its time, and settled later, against whatever the row and the endpoint
have become. A job that is abandoned stands for a crash and for a transaction
with a failed statement, which is rolled back as a whole.
-/

namespace CleanStack.Webhooks

open CleanStack.Lib CleanStack.Drizzle CleanStack.Kit CleanStack.Outbox

def WEBHOOK_MAX_ATTEMPTS : Int := 4

structure WebhookDeliveryOptions where
  leaseSeconds : Nat
  deadRetrySeconds : Nat
  autoDisableMinFailures : Nat
  autoDisableAfterDays : Nat

structure WebhookDeliveryExhausted where
  organizationId : String
  endpointId : String
  deliveryId : String
  eventType : String
  attempts : Int
  deriving DecidableEq

structure WebhookEndpointDisabled where
  organizationId : String
  endpointId : String
  reason : String
  consecutiveFailures : Nat
  deriving DecidableEq

inductive WorkerEvent
  | exhausted (event : WebhookDeliveryExhausted)
  | disabled (event : WebhookEndpointDisabled)
  deriving DecidableEq

structure AttemptRecord extends AttemptLog where
  deliveryId : String
  attemptNumber : Int

/-- The tables a settlement writes; `outbox` holds what the worker emits. -/
structure WebhookDb where
  deliveries : DeliveryTable
  endpoints : EndpointTable
  attempts : List AttemptRecord
  outbox : List WorkerEvent

/-- What a settlement takes from its surroundings: the database clock, the
clock of the process and the draw of the retry delay. -/
structure SettleMoment where
  now : Time
  processNow : Time
  random : Draw

/-! ## settle -/

def leaseKeyOf (delivery : DeliveryRow) : LeaseKey := ⟨delivery.id, delivery.attempts⟩

def failureOf (options : WebhookDeliveryOptions) (delivery : DeliveryRow) (error : String)
    (outcome : Outcome) (terminal : Bool) (random : Draw) : DeliveryFailure :=
  if terminal then ⟨error, outcome.responseStatus, true, none⟩
  else
    let schedule := failureSchedule delivery.attempts
      ⟨delivery.status = .deadLetter, WEBHOOK_MAX_ATTEMPTS, options.deadRetrySeconds⟩ random
    ⟨error, outcome.responseStatus, schedule.dead, some schedule.retryAfterSeconds⟩

/-- Dates are compared by `Date.getTime`, in milliseconds. -/
def shouldAutoDisable (bumped : Bumped) (now : Time) (options : WebhookDeliveryOptions) :
    Bool :=
  options.autoDisableMinFailures ≤ bumped.consecutiveFailures &&
    bumped.firstFailedAt / 1000 + 86400000 * options.autoDisableAfterDays < now / 1000

def exhaustedEvent (delivery : DeliveryRow) (organizationId : String) : WorkerEvent :=
  .exhausted ⟨organizationId, delivery.endpointId, delivery.id, delivery.eventType,
    delivery.attempts⟩

def disabledEvent (delivery : DeliveryRow) (organizationId : String) (bumped : Bumped) :
    WorkerEvent :=
  .disabled ⟨organizationId, delivery.endpointId, "delivery_failures",
    bumped.consecutiveFailures⟩

def runTerminalFailureBlock (options : WebhookDeliveryOptions) (db : WebhookDb)
    (delivery : DeliveryRow) (organizationId : String) (m : SettleMoment) : WebhookDb :=
  let (endpoints, bumped) := bumpFailure db.endpoints m.now delivery.endpointId organizationId
  let db := { db with
    endpoints := endpoints
    outbox := db.outbox ++ [exhaustedEvent delivery organizationId] }
  match bumped with
  | none => db
  | some bumped =>
      if shouldAutoDisable bumped m.processNow options then
        { db with
          endpoints := markDisabled db.endpoints delivery.endpointId organizationId m.processNow
          outbox := db.outbox ++ [disabledEvent delivery organizationId bumped] }
      else db

/-- The statement on the delivery, and whether it wrote a row. -/
def writeVerdict (t : DeliveryTable) (delivery : DeliveryRow) (outcome : Outcome)
    (failure : Option DeliveryFailure) (now : Time) : DeliveryTable × Bool :=
  match failure with
  | some failure => markFailed t now (leaseKeyOf delivery) failure
  | none => markSuccess t (leaseKeyOf delivery) outcome.responseStatus

def verdictFailure (options : WebhookDeliveryOptions) (delivery : DeliveryRow)
    (outcome : Outcome) (random : Draw) : Option DeliveryFailure :=
  match outcome.verdict with
  | .failure error terminal => some (failureOf options delivery error outcome terminal random)
  | .success => none

def isFirstDeath (delivery : DeliveryRow) (failure : DeliveryFailure) : Bool :=
  failure.deadLetter && delivery.status ≠ .deadLetter

def recordedAttempt (delivery : DeliveryRow) (outcome : Outcome) (wrote : Bool) :
    List AttemptRecord :=
  match outcome.attempt with
  | some attempt =>
      if wrote || attempt.requestSent then [⟨attempt.log, delivery.id, delivery.attempts⟩] else []
  | none => []

def settleDelivery (options : WebhookDeliveryOptions) (db : WebhookDb) (delivery : DeliveryRow)
    (outcome : Outcome) (m : SettleMoment) : WebhookDb :=
  let failure := verdictFailure options delivery outcome m.random
  let (deliveries, wrote) := writeVerdict db.deliveries delivery outcome failure m.now
  let db := { db with
    deliveries := deliveries
    attempts := db.attempts ++ recordedAttempt delivery outcome wrote }
  match outcome.organizationId with
  | none => db
  | some organizationId =>
      if !wrote then db
      else
        match failure with
        | none =>
            { db with
              endpoints := resetFailure db.endpoints delivery.endpointId organizationId }
        | some failure =>
            if isFirstDeath delivery failure then
              runTerminalFailureBlock options db delivery organizationId m
            else db

/-! ## Workers side by side -/

structure WebhookWorker (κ : Type) where
  platform : Platform κ
  settings : DeliverySettings
  options : WebhookDeliveryOptions

/-- What a worker meets while it processes a delivery: it may throw at any
point, and otherwise looks the endpoint up, in vain or not. -/
inductive Processing (κ : Type)
  | threw (error : String)
  | lookupFailed (error : String) (masterKey : Option κ) (w : World)
  | lookedUp (masterKey : Option κ) (w : World)

def Processing.isLost {κ : Type} : Processing κ → Bool
  | .lookedUp .. => false
  | _ => true

def thrownOutcome (error : String) : Outcome := failed error false none none

def outcomeOf {κ : Type} (worker : WebhookWorker κ) (endpoints : EndpointTable)
    (delivery : DeliveryRow) : Processing κ → Outcome
  | .threw error => thrownOutcome error
  | .lookupFailed error masterKey w =>
      (processDelivery worker.platform worker.settings masterKey
        { w with endpoint := .error error } delivery).1
  | .lookedUp masterKey w =>
      (processDelivery worker.platform worker.settings masterKey
        { w with endpoint := .ok ((findEnabledById endpoints delivery.endpointId).map
          WebhookEndpointRow.toEndpointRow) } delivery).1

inductive DeliveryPhase (κ : Type)
  | claimed
  | processed (processing : Processing κ) (outcome : Outcome)
  | over

structure DeliveryJob (κ : Type) where
  worker : Nat
  record : DeliveryRow
  phase : DeliveryPhase κ

structure WorkerState (κ : Type) where
  clock : Time
  db : WebhookDb
  jobs : List (DeliveryJob κ)

inductive WorkerAction (κ : Type)
  | claim (worker : Nat) (locked : String → Bool) (limit : Nat)
  | process (j : Nat) (processing : Processing κ)
  | settle (j : Nat) (processNow : Time) (random : Draw)
  | giveBack (j : Nat)
  | abandon (j : Nat)
  | enqueue (r : DeliveryRow)
  | createEndpoint (endpoint : EndpointRow) (eventTypes : List String) (enabled : Bool)
  | updateEndpoint (args : UpdateEndpointArgs)
  | rotateSecret (id organizationId secretCipher previousSecretCipher : String)
      (previousSecretExpiresAt : Time)
  | deleteEndpoint (id organizationId : String)
  | wait (n : Nat)

section Step

variable {κ : Type}

def WorkerState.withPhase (s : WorkerState κ) (j : Nat) (phase : DeliveryPhase κ) :
    WorkerState κ :=
  { s with jobs := s.jobs.modify j fun job => { job with phase := phase } }

/-- A new delivery is pending, belongs to an endpoint, and has an id that was
never in use. -/
def isNewDelivery (s : WorkerState κ) (r : DeliveryRow) : Bool :=
  r.status = .pending && r.attempts = 0 && (s.db.endpoints.find? r.endpointId).isSome &&
    s.jobs.all fun job => job.record.id ≠ r.id

/-- `ON DELETE CASCADE`. -/
def deleteEndpoint (db : WebhookDb) (id organizationId : String) : WebhookDb :=
  if ((db.endpoints.find? id).filter fun r => r.organizationId = organizationId).isSome then
    { db with
      endpoints := db.endpoints.delete (ownedBy id organizationId)
      deliveries := db.deliveries.delete fun r => r.endpointId = id }
  else db

def workerStep (workers : Nat → WebhookWorker κ) (s : WorkerState κ) :
    WorkerAction κ → Option (WorkerState κ)
  | .claim i locked limit =>
      let (deliveries, rows) := claim s.db.deliveries s.clock locked
        ⟨limit, (workers i).options.leaseSeconds⟩
      some { s with
        db := { s.db with deliveries := deliveries }
        jobs := s.jobs ++ rows.map fun r => ⟨i, r, .claimed⟩ }
  | .process j processing =>
      match s.jobs[j]? with
      | some ⟨i, record, .claimed⟩ =>
          some (s.withPhase j
            (.processed processing (outcomeOf (workers i) s.db.endpoints record processing)))
      | _ => none
  | .settle j processNow random =>
      match s.jobs[j]? with
      | some ⟨i, record, .processed _ outcome⟩ =>
          some { s.withPhase j .over with
            db := settleDelivery (workers i).options s.db record outcome
              ⟨s.clock, processNow, random⟩ }
      | _ => none
  | .giveBack j =>
      match s.jobs[j]? with
      | some ⟨_, record, .claimed⟩ =>
          some { s.withPhase j .over with
            db := { s.db with
              deliveries := (release s.db.deliveries s.clock (leaseKeyOf record)).1 } }
      | _ => none
  | .abandon j => s.jobs[j]?.map fun _ => s.withPhase j .over
  | .enqueue r =>
      if isNewDelivery s r then
        (s.db.deliveries.insert r).map fun deliveries =>
          { s with db := { s.db with deliveries := deliveries } }
      else none
  | .createEndpoint endpoint eventTypes enabled =>
      (s.db.endpoints.insert (newEndpoint endpoint eventTypes enabled)).map fun endpoints =>
        { s with db := { s.db with endpoints := endpoints } }
  | .updateEndpoint args =>
      some { s with db := { s.db with endpoints := updateEndpoint s.db.endpoints args } }
  | .rotateSecret id organizationId secretCipher previousSecretCipher previousSecretExpiresAt =>
      some { s with
        db := { s.db with
          endpoints := applySecretRotation s.db.endpoints id organizationId secretCipher
            previousSecretCipher previousSecretExpiresAt } }
  | .deleteEndpoint id organizationId =>
      some { s with db := deleteEndpoint s.db id organizationId }
  | .wait n => some { s with clock := s.clock + n }

/-! ## What a step does -/

variable {workers : Nat → WebhookWorker κ} {s t : WorkerState κ}

theorem process_eq_some {j : Nat} {processing : Processing κ}
    (h : workerStep workers s (.process j processing) = some t) :
    ∃ i record, s.jobs[j]? = some ⟨i, record, .claimed⟩ ∧
      t = s.withPhase j
        (.processed processing (outcomeOf (workers i) s.db.endpoints record processing)) := by
  simp only [workerStep] at h
  split at h
  · next i record hjob =>
      cases h
      exact ⟨i, record, hjob, rfl⟩
  · cases h

theorem settle_eq_some {j : Nat} {processNow : Time} {random : Draw}
    (h : workerStep workers s (.settle j processNow random) = some t) :
    ∃ i record processing outcome,
      s.jobs[j]? = some ⟨i, record, .processed processing outcome⟩ ∧
      t = { s.withPhase j .over with
        db := settleDelivery (workers i).options s.db record outcome
          ⟨s.clock, processNow, random⟩ } := by
  simp only [workerStep] at h
  split at h
  · next i record processing outcome hjob =>
      cases h
      exact ⟨i, record, processing, outcome, hjob, rfl⟩
  · cases h

theorem giveBack_eq_some {j : Nat} (h : workerStep workers s (.giveBack j) = some t) :
    ∃ i record, s.jobs[j]? = some ⟨i, record, .claimed⟩ ∧
      t = { s.withPhase j .over with
        db := { s.db with
          deliveries := (release s.db.deliveries s.clock (leaseKeyOf record)).1 } } := by
  simp only [workerStep] at h
  split at h
  · next i record hjob =>
      cases h
      exact ⟨i, record, hjob, rfl⟩
  · cases h

theorem enqueue_eq_some {r : DeliveryRow} (h : workerStep workers s (.enqueue r) = some t) :
    isNewDelivery s r = true ∧ ∃ deliveries, s.db.deliveries.insert r = some deliveries ∧
      t = { s with db := { s.db with deliveries := deliveries } } := by
  simp only [workerStep] at h
  split at h
  · next hnew =>
      obtain ⟨deliveries, hins, rfl⟩ := Option.map_eq_some_iff.1 h
      exact ⟨hnew, deliveries, hins, rfl⟩
  · cases h

end Step

/-! ## One endpoint -/

def hooksWorker : WebhookWorker Unit :=
  ⟨plainPlatform, ⟨true, 5000, 4096⟩, ⟨60, 21600, 2, 5⟩⟩

def hooksEndpoint (consecutiveFailures : Nat) (firstFailedAt : Option Time) :
    WebhookEndpointRow where
  id := "w1"
  organizationId := "org"
  url := hooksUrl.href
  secretCipher := "secret"
  previousSecretCipher := none
  previousSecretExpiresAt := none
  eventTypes := ["invoice.paid"]
  enabled := true
  consecutiveFailures := consecutiveFailures
  firstFailedAt := firstFailedAt
  disabledAt := none

/-- The lookup of the host takes too long. -/
def slowWorld : World where
  endpoint := .ok none
  lookup := .timedOut
  net := ⟨fun _ _ => .error "", fun _ _ => .lost ""⟩
  now := 0
  durationMs := 0

def hooksState (endpoint : WebhookEndpointRow) (rows : List DeliveryRow)
    (h : (rows.map Keyed.key).Nodup) : WorkerState Unit :=
  ⟨9, ⟨⟨rows, h⟩, ⟨[endpoint], List.nodup_singleton _⟩, [], []⟩, []⟩

/-- A delivery that has failed three times is attempted once more. -/
def lastAttempt (processing : Processing Unit) : List (WorkerAction Unit) :=
  [.claim 0 (fun _ => false) 10, .process 0 processing, .settle 0 9 0]

def lateState : WorkerState Unit :=
  hooksState (hooksEndpoint 0 none) [{ paidDelivery with attempts := 3 }] (List.nodup_singleton _)

example : (exec (workerStep fun _ => hooksWorker) lateState
    (lastAttempt (.lookedUp (some ()) slowWorld))).map (fun s => s.db.outbox) =
      some [.exhausted ⟨"org", "w1", "d1", "invoice.paid", 4⟩] := by
  decide +kernel

end CleanStack.Webhooks
