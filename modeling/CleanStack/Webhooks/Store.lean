import CleanStack.Drizzle.Lease
import CleanStack.Kit.JsValue

/-!
# The webhook delivery table

`webhook_delivery` and the statements of its repository. A row with no
next-attempt date is never settled again, which is how a terminal failure is
told apart from a dead letter that is retried on the slow cadence.
-/

namespace CleanStack.Webhooks

open CleanStack.Lib CleanStack.Drizzle CleanStack.Kit

inductive DeliveryStatus
  | pending
  | success
  | failed
  | deadLetter
  deriving DecidableEq, Repr

structure DeliveryRow where
  id : String
  endpointId : String
  outboxEventId : String
  eventType : String
  payload : JsValue
  status : DeliveryStatus
  attempts : Int
  nextAttemptAt : Option Time
  lastError : Option String
  lastResponseStatus : Option Nat
  idempotencyKey : String
  createdAt : Time

instance : LeaseColumns DeliveryRow where
  key := DeliveryRow.id
  counter := DeliveryRow.attempts
  dueAt := DeliveryRow.nextAttemptAt
  setLease a d r := { r with attempts := a, nextAttemptAt := d }
  key_setLease _ _ _ := rfl
  counter_setLease _ _ _ := rfl
  dueAt_setLease _ _ _ := rfl

abbrev DeliveryTable := Table DeliveryRow

structure DeliveryClaimRequest where
  limit : Nat
  leaseSeconds : Nat

structure DeliveryFailure where
  lastError : String
  lastResponseStatus : Option Nat
  /-- `dead_letter` rather than `failed`. -/
  deadLetter : Bool
  retryAfterSeconds : Option Nat

def unsettled (r : DeliveryRow) : Bool :=
  (r.status = .pending || r.status = .failed || r.status = .deadLetter) &&
    r.nextAttemptAt.isSome

/-! ## claim -/

def createdLe (a b : DeliveryRow) : Bool := a.createdAt ≤ b.createdAt

def liveDue (now : Time) (r : DeliveryRow) : Bool :=
  (r.status = .pending || r.status = .failed) && isDue now r.nextAttemptAt

def deadDue (now : Time) (r : DeliveryRow) : Bool :=
  r.status = .deadLetter && isDeadDue now r.nextAttemptAt

/-- The rows the `due` expression of `claimQuery` selects. -/
def claimDue (t : DeliveryTable) (now : Time) (locked : String → Bool)
    (req : DeliveryClaimRequest) : List DeliveryRow :=
  pickDue createdLe (liveDue now) (deadDue now) req.limit (freeRows t locked)

def claimPicked (t : DeliveryTable) (now : Time) (locked : String → Bool)
    (req : DeliveryClaimRequest) (r : DeliveryRow) : Bool :=
  joins (claimDue t now locked req) r

def claimedLe (a b : DeliveryRow) : Bool :=
  a.createdAt / 1000 < b.createdAt / 1000 ||
    (a.createdAt / 1000 = b.createdAt / 1000 && a.id ≤ b.id)

def claim (t : DeliveryTable) (now : Time) (locked : String → Bool)
    (req : DeliveryClaimRequest) : DeliveryTable × List DeliveryRow :=
  let picked := claimPicked t now locked req
  let set := claimedSet now req.leaseSeconds
  (t.update picked set (key_claimedSet now req.leaseSeconds),
    orderBy claimedLe (t.returning picked set))

/-! ## settle -/

def leased (lease : LeaseKey) (r : DeliveryRow) : Bool :=
  leasedBy lease r && unsettled r

/-- `UPDATE … WHERE leased(lease)`, and whether it wrote a row. -/
def settle (t : DeliveryTable) (lease : LeaseKey)
    (changes : DeliveryRow → DeliveryRow)
    (h : ∀ r, Keyed.key (changes r) = Keyed.key r) : DeliveryTable × Bool :=
  (t.update (leased lease) changes h, t.rows.any (leased lease))

def successSet (lastResponseStatus : Option Nat) (r : DeliveryRow) : DeliveryRow :=
  { r with
    status := .success
    nextAttemptAt := none
    lastError := none
    lastResponseStatus := lastResponseStatus }

def failedSet (now : Time) (failure : DeliveryFailure) (r : DeliveryRow) : DeliveryRow :=
  { r with
    status := if failure.deadLetter then .deadLetter else .failed
    nextAttemptAt := failure.retryAfterSeconds.map (secondsFromNow now)
    lastError := some failure.lastError
    lastResponseStatus := failure.lastResponseStatus }

def markSuccess (t : DeliveryTable) (lease : LeaseKey)
    (lastResponseStatus : Option Nat) : DeliveryTable × Bool :=
  settle t lease (successSet lastResponseStatus) fun _ => rfl

def markFailed (t : DeliveryTable) (now : Time) (lease : LeaseKey)
    (failure : DeliveryFailure) : DeliveryTable × Bool :=
  settle t lease (failedSet now failure) fun _ => rfl

def release (t : DeliveryTable) (now : Time) (lease : LeaseKey) : DeliveryTable × Bool :=
  settle t lease (releasedSet now) (key_releasedSet now)

/-! ## What the statements guarantee -/

theorem claimPicked_due {t : DeliveryTable} {now : Time} {locked : String → Bool}
    {req : DeliveryClaimRequest} {r : DeliveryRow} (hr : r ∈ t.rows)
    (h : claimPicked t now locked req r = true) :
    locked r.id = false ∧ (liveDue now r = true ∨ deadDue now r = true) := by
  have hdue : ∀ d ∈ claimDue t now locked req, d ∈ t.rows := fun d hd =>
    (mem_freeRows.1 (mem_pickDue hd).1).1
  have hmem := mem_pickDue (mem_of_joins hdue hr h)
  exact ⟨(mem_freeRows.1 hmem.1).2, hmem.2⟩

theorem claimPicked_dueAt {t : DeliveryTable} {now : Time} {locked : String → Bool}
    {req : DeliveryClaimRequest} {r : DeliveryRow} (hr : r ∈ t.rows)
    (h : claimPicked t now locked req r = true) {d : Time}
    (hd : r.nextAttemptAt = some d) : d ≤ now := by
  rcases (claimPicked_due hr h).2 with h | h
  · simp only [liveDue, Bool.and_eq_true] at h
    exact due_le_of_isDue h.2 hd
  · simp only [deadDue, Bool.and_eq_true] at h
    exact due_le_of_isDeadDue h.2 hd

end CleanStack.Webhooks
