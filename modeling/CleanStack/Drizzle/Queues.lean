import CleanStack.Lib.Runs
import CleanStack.Outbox.Store
import CleanStack.Email.Queue
import CleanStack.Webhooks.Store

/-!
# Workers over the three queues

Any number of workers run the statements of a queue in any order. A worker is
known only by the claims it holds: the ledger lists every claim made of every
row in the order the claims were made, and a statement that ends claims names
the claims it ends. A worker that dies keeps its claims for ever; a lease
expires because the clock passes it, which changes no row.

Ending a claim is the worker's last word on it: a settlement or a release is
made with held claims and leaves none of them held, whether or not it wrote
the row. `assignBatch` writes under a claim and keeps it.
-/

namespace CleanStack.Drizzle

open CleanStack.Lib CleanStack.Lib.Fencing

abbrev RowClaim := Claim String

/-- The claims are held, so their holder may still write. -/
def allHeld (ledger : List RowClaim) (cs : List RowClaim) : Bool :=
  cs.all fun c => ledger.contains c && c.fate = .held

theorem allHeld_iff {ledger cs : List RowClaim} :
    allHeld ledger cs = true ↔ ∀ c ∈ cs, c ∈ ledger ∧ c.fate = .held := by
  simp [allHeld]

/-- The ledger after the claims `cs` ended. -/
def ended {ρ : Type} [LeaseColumns ρ] (isOpen : ρ → Bool) (s : State ρ)
    (cs : List RowClaim) (won : Fate) : List RowClaim :=
  s.ledger.map (close isOpen (fun c => decide (c ∈ cs)) s.table won)

/-- The ledger after a claim returned some rows. -/
def recorded {ρ : Type} [LeaseColumns ρ] (s : State ρ) (leaseSeconds : Nat)
    (rows : List ρ) : List RowClaim :=
  s.ledger ++ rows.map (entry s.ledger.length (s.clock + second * leaseSeconds))

/-! ## outbox_event -/

inductive OutboxEvent
  | claim (locked : String → Bool) (limit : Nat) (eventTypes : List String)
  | markDelivered (c : RowClaim) (deliveries : Outbox.Deliveries)
  | markFailed (c : RowClaim) (failure : Outbox.OutboxFailure)
  | release (c : RowClaim)
  | requeueDead (ids : List String)
  | enqueue (r : Outbox.OutboxRow)
  | wait (n : Nat)

/-- The claims a statement writes with. -/
def OutboxEvent.writers : OutboxEvent → Option (List RowClaim)
  | .markDelivered c _ => some [c]
  | .markFailed c _ => some [c]
  | .release c => some [c]
  | _ => none

def outboxStep (leaseSeconds : Nat) (s : State Outbox.OutboxRow) :
    OutboxEvent → Option (State Outbox.OutboxRow)
  | .claim locked limit eventTypes =>
      let (table, rows) := Outbox.claim s.table s.clock locked
        ⟨limit, eventTypes, leaseSeconds⟩
      some { s with table := table, ledger := recorded s leaseSeconds rows }
  | .markDelivered c deliveries =>
      if allHeld s.ledger [c] then
        some { s with
          table := (Outbox.markDelivered s.table s.clock (leaseOf c) deliveries).1
          ledger := ended Outbox.undispatched s [c] .settled }
      else none
  | .markFailed c failure =>
      if allHeld s.ledger [c] then
        some { s with
          table := (Outbox.markFailed s.table s.clock (leaseOf c) failure).1
          ledger := ended Outbox.undispatched s [c] .settled }
      else none
  | .release c =>
      if allHeld s.ledger [c] then
        some { s with
          table := (Outbox.release s.table s.clock (leaseOf c)).1
          ledger := ended Outbox.undispatched s [c] .released }
      else none
  | .requeueDead ids =>
      some { s with table := (Outbox.requeueDead s.table s.clock ids leaseSeconds).1 }
  | .enqueue r => (s.table.insert r).map fun table => { s with table := table }
  | .wait n => some { s with clock := s.clock + n }

/-! ## email_message -/

inductive EmailEvent
  | claim (locked : String → Bool) (limit deadReplayWindowHours : Nat)
  | assignBatch (cs : List RowClaim) (batchKey : String)
  | markSent (cs : List RowClaim) (providerMessageIds : List (String × String))
  | markFailed (cs : List RowClaim) (failure : Email.EmailFailure)
  | release (cs : List RowClaim) (delaySeconds : Nat)
  | enqueue (r : Email.EmailRow)
  | wait (n : Nat)

def EmailEvent.writers : EmailEvent → Option (List RowClaim)
  | .assignBatch cs _ => some cs
  | .markSent cs _ => some cs
  | .markFailed cs _ => some cs
  | .release cs _ => some cs
  | _ => none

def emailStep (leaseSeconds : Nat) (s : State Email.EmailRow) :
    EmailEvent → Option (State Email.EmailRow)
  | .claim locked limit deadReplayWindowHours =>
      let (table, records) := Email.claim s.table s.clock locked
        ⟨limit, leaseSeconds, deadReplayWindowHours⟩
      some { s with
        table := table
        ledger := recorded s leaseSeconds
          (records.map Email.EmailMessageRecord.toEmailRow) }
  | .assignBatch cs batchKey =>
      if allHeld s.ledger cs then
        some { s with table := (Email.assignBatch s.table (cs.map leaseOf) batchKey).1 }
      else none
  | .markSent cs providerMessageIds =>
      if allHeld s.ledger cs then
        some { s with
          table := (Email.markSent s.table s.clock (cs.map leaseOf) providerMessageIds).1
          ledger := ended Email.unsettled s cs .settled }
      else none
  | .markFailed cs failure =>
      if allHeld s.ledger cs then
        some { s with
          table := (Email.markFailed s.table s.clock (cs.map leaseOf) failure).1
          ledger := ended Email.unsettled s cs .settled }
      else none
  | .release cs delaySeconds =>
      if allHeld s.ledger cs then
        some { s with
          table := (Email.release s.table s.clock (cs.map leaseOf) delaySeconds).1
          ledger := ended Email.unsettled s cs .released }
      else none
  | .enqueue r => (s.table.insert r).map fun table => { s with table := table }
  | .wait n => some { s with clock := s.clock + n }

/-! ## webhook_delivery -/

inductive WebhookEvent
  | claim (locked : String → Bool) (limit : Nat)
  | markSuccess (c : RowClaim) (lastResponseStatus : Option Nat)
  | markFailed (c : RowClaim) (failure : Webhooks.DeliveryFailure)
  | release (c : RowClaim)
  | enqueue (r : Webhooks.DeliveryRow)
  | wait (n : Nat)

def WebhookEvent.writers : WebhookEvent → Option (List RowClaim)
  | .markSuccess c _ => some [c]
  | .markFailed c _ => some [c]
  | .release c => some [c]
  | _ => none

def webhookStep (leaseSeconds : Nat) (s : State Webhooks.DeliveryRow) :
    WebhookEvent → Option (State Webhooks.DeliveryRow)
  | .claim locked limit =>
      let (table, rows) := Webhooks.claim s.table s.clock locked ⟨limit, leaseSeconds⟩
      some { s with table := table, ledger := recorded s leaseSeconds rows }
  | .markSuccess c lastResponseStatus =>
      if allHeld s.ledger [c] then
        some { s with
          table := (Webhooks.markSuccess s.table (leaseOf c) lastResponseStatus).1
          ledger := ended Webhooks.unsettled s [c] .settled }
      else none
  | .markFailed c failure =>
      if allHeld s.ledger [c] then
        some { s with
          table := (Webhooks.markFailed s.table s.clock (leaseOf c) failure).1
          ledger := ended Webhooks.unsettled s [c] .settled }
      else none
  | .release c =>
      if allHeld s.ledger [c] then
        some { s with
          table := (Webhooks.release s.table s.clock (leaseOf c)).1
          ledger := ended Webhooks.unsettled s [c] .released }
      else none
  | .enqueue r => (s.table.insert r).map fun table => { s with table := table }
  | .wait n => some { s with clock := s.clock + n }

end CleanStack.Drizzle
