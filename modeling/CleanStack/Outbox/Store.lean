import CleanStack.Drizzle.Lease
import CleanStack.Kit.JsValue

/-!
# The outbox table

`outbox_event` and the statements of its repository. A statement is a
function from the table and the database clock to the table it leaves and
what it returns; the rows another transaction has locked are an argument of
the claim, which skips them.

`deliveries` is the JSON object that records which handlers are done with the
event, keyed by handler name.
-/

namespace CleanStack.Outbox

open CleanStack.Lib CleanStack.Drizzle CleanStack.Kit

abbrev Deliveries := List (String × String)

def Deliveries.names (d : Deliveries) : List String := d.map Prod.fst

/-- `deliveries || $1::jsonb`: both sets of keys, the right value winning. -/
def merged (stored added : Deliveries) : Deliveries :=
  stored.filter (fun d => !added.names.contains d.1) ++ added

structure OutboxRow where
  id : String
  eventType : String
  aggregateId : String
  aggregateType : String
  organizationId : Option String
  payload : JsValue
  requestId : Option String
  occurredAt : Time
  dispatchedAt : Option Time
  attempts : Int
  lastError : Option String
  nextAttemptAt : Option Time
  deadAt : Option Time
  deliveries : Deliveries

instance : LeaseColumns OutboxRow where
  key := OutboxRow.id
  counter := OutboxRow.attempts
  dueAt := OutboxRow.nextAttemptAt
  setLease a d r := { r with attempts := a, nextAttemptAt := d }
  key_setLease _ _ _ := rfl
  counter_setLease _ _ _ := rfl
  dueAt_setLease _ _ _ := rfl

abbrev OutboxTable := Table OutboxRow

/-- What a claim returns of a row. -/
structure OutboxRecord where
  id : String
  eventType : String
  aggregateId : String
  aggregateType : String
  organizationId : Option String
  payload : JsValue
  requestId : Option String
  occurredAt : Time
  attempts : Int
  deadAt : Option Time
  deliveries : Deliveries

structure ClaimRequest where
  limit : Nat
  eventTypes : List String
  leaseSeconds : Nat

structure OutboxFailure where
  lastError : String
  retryAfterSeconds : Nat
  dead : Bool
  deliveries : Deliveries

def liveRow (r : OutboxRow) : Bool := r.dispatchedAt.isNone && r.deadAt.isNone

def deadRow (r : OutboxRow) : Bool := r.dispatchedAt.isNone && r.deadAt.isSome

def undispatched (r : OutboxRow) : Bool := r.dispatchedAt.isNone

def leased (lease : LeaseKey) (r : OutboxRow) : Bool :=
  leasedBy lease r && undispatched r

def recordOf (r : OutboxRow) : OutboxRecord where
  id := r.id
  eventType := r.eventType
  aggregateId := r.aggregateId
  aggregateType := r.aggregateType
  organizationId := r.organizationId
  payload := r.payload
  requestId := r.requestId
  occurredAt := r.occurredAt
  attempts := r.attempts
  deadAt := r.deadAt
  deliveries := r.deliveries

/-! ## claim -/

def occurrenceLe (a b : OutboxRow) : Bool :=
  a.occurredAt < b.occurredAt || (a.occurredAt = b.occurredAt && a.id ≤ b.id)

def liveDue (now : Time) (req : ClaimRequest) (r : OutboxRow) : Bool :=
  liveRow r && req.eventTypes.contains r.eventType && isDue now r.nextAttemptAt

def deadDue (now : Time) (req : ClaimRequest) (r : OutboxRow) : Bool :=
  deadRow r && req.eventTypes.contains r.eventType && isDeadDue now r.nextAttemptAt

/-- The rows the `due` expression of `claimQuery` selects. -/
def claimDue (t : OutboxTable) (now : Time) (locked : String → Bool)
    (req : ClaimRequest) : List OutboxRow :=
  pickDue occurrenceLe (liveDue now req) (deadDue now req) req.limit (freeRows t locked)

def claimPicked (t : OutboxTable) (now : Time) (locked : String → Bool)
    (req : ClaimRequest) (r : OutboxRow) : Bool :=
  joins (claimDue t now locked req) r

/-- The rows are compared by `Date.getTime`, in milliseconds. -/
def byOccurrence (a b : OutboxRow) : Bool :=
  a.occurredAt / 1000 < b.occurredAt / 1000 ||
    (a.occurredAt / 1000 = b.occurredAt / 1000 && a.id ≤ b.id)

def claim (t : OutboxTable) (now : Time) (locked : String → Bool)
    (req : ClaimRequest) : OutboxTable × List OutboxRow :=
  let picked := claimPicked t now locked req
  let set := claimedSet now req.leaseSeconds
  (t.update picked set (key_claimedSet now req.leaseSeconds),
    orderBy byOccurrence (t.returning picked set))

/-! ## settle -/

/-- `UPDATE … WHERE leased(lease)`, and whether it wrote a row. -/
def settle (t : OutboxTable) (lease : LeaseKey) (changes : OutboxRow → OutboxRow)
    (h : ∀ r, Keyed.key (changes r) = Keyed.key r) : OutboxTable × Bool :=
  (t.update (leased lease) changes h, t.rows.any (leased lease))

def deliveredSet (now : Time) (deliveries : Deliveries) (r : OutboxRow) : OutboxRow :=
  { r with
    dispatchedAt := some now
    nextAttemptAt := none
    deadAt := none
    deliveries := merged r.deliveries deliveries }

def failedSet (now : Time) (failure : OutboxFailure) (r : OutboxRow) : OutboxRow :=
  { r with
    lastError := some failure.lastError
    nextAttemptAt := some (secondsFromNow now failure.retryAfterSeconds)
    deliveries := merged r.deliveries failure.deliveries
    deadAt := if failure.dead then some (r.deadAt.getD now) else r.deadAt }

def markDelivered (t : OutboxTable) (now : Time) (lease : LeaseKey)
    (deliveries : Deliveries) : OutboxTable × Bool :=
  settle t lease (deliveredSet now deliveries) fun _ => rfl

def markFailed (t : OutboxTable) (now : Time) (lease : LeaseKey)
    (failure : OutboxFailure) : OutboxTable × Bool :=
  settle t lease (failedSet now failure) fun _ => rfl

def release (t : OutboxTable) (now : Time) (lease : LeaseKey) : OutboxTable × Bool :=
  settle t lease (releasedSet now) (key_releasedSet now)

/-! ## requeueDead -/

def requeuable (clock : Time) (ids : List String) (leaseSeconds : Nat)
    (r : OutboxRow) : Bool :=
  ids.contains r.id && deadRow r &&
    r.nextAttemptAt.any fun d => secondsFromNow clock leaseSeconds < d

def requeueDead (t : OutboxTable) (now : Time) (ids : List String)
    (leaseSeconds : Nat) : OutboxTable × List String :=
  (t.update (requeuable now ids leaseSeconds) (fun r => { r with nextAttemptAt := some now })
      fun _ => rfl,
    (t.rows.filter (requeuable now ids leaseSeconds)).map OutboxRow.id)

/-! ## What the statements guarantee -/

theorem claimPicked_due {t : OutboxTable} {now : Time} {locked : String → Bool}
    {req : ClaimRequest} {r : OutboxRow} (hr : r ∈ t.rows)
    (h : claimPicked t now locked req r = true) :
    locked r.id = false ∧ (liveDue now req r = true ∨ deadDue now req r = true) := by
  have hdue : ∀ d ∈ claimDue t now locked req, d ∈ t.rows := fun d hd =>
    (mem_freeRows.1 (mem_pickDue hd).1).1
  have hmem := mem_pickDue (mem_of_joins hdue hr h)
  exact ⟨(mem_freeRows.1 hmem.1).2, hmem.2⟩

theorem claimPicked_dueAt {t : OutboxTable} {now : Time} {locked : String → Bool}
    {req : ClaimRequest} {r : OutboxRow} (hr : r ∈ t.rows)
    (h : claimPicked t now locked req r = true) {d : Time}
    (hd : r.nextAttemptAt = some d) : d ≤ now := by
  rcases (claimPicked_due hr h).2 with h | h
  · simp only [liveDue, Bool.and_eq_true] at h
    exact due_le_of_isDue h.2 hd
  · simp only [deadDue, Bool.and_eq_true] at h
    exact due_le_of_isDeadDue h.2 hd

theorem mem_names {d : Deliveries} {name : String} :
    name ∈ d.names ↔ ∃ doneAt, (name, doneAt) ∈ d := by
  simp [Deliveries.names]

theorem mem_names_merged {stored added : Deliveries} {name : String} :
    name ∈ (merged stored added).names ↔ name ∈ stored.names ∨ name ∈ added.names := by
  constructor
  · intro h
    obtain ⟨doneAt, h⟩ := mem_names.1 h
    rcases List.mem_append.1 h with h | h
    · exact .inl (mem_names.2 ⟨doneAt, (List.mem_filter.1 h).1⟩)
    · exact .inr (mem_names.2 ⟨doneAt, h⟩)
  · rintro (h | h)
    · by_cases hadded : name ∈ added.names
      · obtain ⟨doneAt, h'⟩ := mem_names.1 hadded
        exact mem_names.2 ⟨doneAt, List.mem_append_right _ h'⟩
      · obtain ⟨doneAt, h⟩ := mem_names.1 h
        exact mem_names.2 ⟨doneAt, List.mem_append_left _
          (List.mem_filter.2 ⟨h, by simpa using hadded⟩)⟩
    · obtain ⟨doneAt, h⟩ := mem_names.1 h
      exact mem_names.2 ⟨doneAt, List.mem_append_right _ h⟩

end CleanStack.Outbox
