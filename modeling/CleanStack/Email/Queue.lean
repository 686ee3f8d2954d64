import CleanStack.Drizzle.Lease
import CleanStack.Kit.JsValue
import CleanStack.Kit.Utf16

/-!
# The e-mail queue table

`email_message` and the statements of its queue. A claim takes the live rows
that are due, a share of dead rows still inside their replay window, and then
every due sibling of a batch it picked, so that a limit never cuts a batch.
It also reports, for each batch, how many of its rows could still be sent;
that count looks at the whole table, locked rows and leased rows included.
-/

namespace CleanStack.Email

open CleanStack.Lib CleanStack.Drizzle CleanStack.Kit

inductive MessageKind
  | template
  | raw
  deriving DecidableEq, Repr

inductive MessageStatus
  | pending
  | sent
  | failed
  | dead
  deriving DecidableEq, Repr

inductive Locale
  | en
  | fr
  deriving DecidableEq, Repr

def DEFAULT_LOCALE : Locale := .en

def toLocale? : String → Option Locale
  | "en" => some .en
  | "fr" => some .fr
  | _ => none

structure EmailRow where
  id : String
  kind : MessageKind
  template : Option String
  toAddress : String
  subject : String
  locale : Option String
  payload : JsValue
  status : MessageStatus
  attempts : Int
  nextAttemptAt : Option Time
  sentAt : Option Time
  lastError : Option String
  providerMessageId : Option String
  idempotencyKey : Option String
  batchKey : Option String
  createdAt : Time

instance : LeaseColumns EmailRow where
  key := EmailRow.id
  counter := EmailRow.attempts
  dueAt := EmailRow.nextAttemptAt
  setLease a d r := { r with attempts := a, nextAttemptAt := d }
  key_setLease _ _ _ := rfl
  counter_setLease _ _ _ := rfl
  dueAt_setLease _ _ _ := rfl

abbrev EmailTable := Table EmailRow

/-- What a claim returns: the row, and the size of its batch. -/
structure EmailMessageRecord extends EmailRow where
  unsettledInBatch : Option Nat

structure EmailClaimRequest where
  limit : Nat
  leaseSeconds : Nat
  deadReplayWindowHours : Nat

inductive EmailFailure
  | failed (lastError : String)
  | pending (lastError : String) (retryAfterSeconds : Nat)
  | dead (lastError : String) (retryAfterSeconds : Nat)

def LAST_ERROR_MAX_LENGTH : Nat := 2000

def unsettled (r : EmailRow) : Bool := r.status = .pending || r.status = .dead

def leasedAll (leases : List LeaseKey) (r : EmailRow) : Bool :=
  leases.any (fun lease => leasedBy lease r) && unsettled r

/-! ## claim -/

def createdLe (a b : EmailRow) : Bool := a.createdAt ≤ b.createdAt

def inWindow (now : Time) (req : EmailClaimRequest) (r : EmailRow) : Bool :=
  now < r.createdAt + second * (3600 * req.deadReplayWindowHours)

def pendingDue (now : Time) (r : EmailRow) : Bool :=
  r.status = .pending && isDue now r.nextAttemptAt

def deadDue (now : Time) (req : EmailClaimRequest) (r : EmailRow) : Bool :=
  r.status = .dead && isDeadDue now r.nextAttemptAt && inWindow now req r

def replayable (now : Time) (req : EmailClaimRequest) (r : EmailRow) : Bool :=
  unsettled r && (r.status = .pending || inWindow now req r)

/-- The batch keys of some rows, `NULL` matching nothing. -/
def inBatchOf (rows : List EmailRow) (r : EmailRow) : Bool :=
  r.batchKey.isSome && rows.any fun p => p.batchKey = r.batchKey

def picked (t : EmailTable) (now : Time) (locked : String → Bool)
    (req : EmailClaimRequest) : List EmailRow :=
  pickDue createdLe (pendingDue now) (deadDue now req) req.limit (freeRows t locked)

def siblings (t : EmailTable) (now : Time) (locked : String → Bool)
    (req : EmailClaimRequest) : List EmailRow :=
  (freeRows t locked).filter fun r =>
    inBatchOf (picked t now locked req) r && (pendingDue now r || deadDue now req r)

/-- The rows the `due` expression of `claimQuery` selects: the picked rows and
their due siblings. -/
def claimDue (t : EmailTable) (now : Time) (locked : String → Bool)
    (req : EmailClaimRequest) : List EmailRow :=
  picked t now locked req ++ siblings t now locked req

def claimPicked (t : EmailTable) (now : Time) (locked : String → Bool)
    (req : EmailClaimRequest) (r : EmailRow) : Bool :=
  unsettled r && joins (claimDue t now locked req) r

/-- `count(*)` of the `batch_sizes` group of a batch key. -/
def unsettledIn (t : EmailTable) (now : Time) (req : EmailClaimRequest)
    (batchKey : String) : Nat :=
  (t.rows.filter fun r => r.batchKey = some batchKey && replayable now req r).length

/-- The left join against `batch_sizes`. -/
def unsettledInBatch (t : EmailTable) (now : Time) (req : EmailClaimRequest)
    (r : EmailRow) : Option Nat :=
  r.batchKey.bind fun batchKey =>
    let n := unsettledIn t now req batchKey
    if n = 0 then none else some n

/-- Claimed rows are handed out oldest first, by milliseconds, then by id. -/
def claimedLe (a b : EmailRow) : Bool :=
  a.createdAt / 1000 < b.createdAt / 1000 ||
    (a.createdAt / 1000 = b.createdAt / 1000 && a.id ≤ b.id)

def claim (t : EmailTable) (now : Time) (locked : String → Bool)
    (req : EmailClaimRequest) : EmailTable × List EmailMessageRecord :=
  let picked := claimPicked t now locked req
  let set := claimedSet now req.leaseSeconds
  (t.update picked set (key_claimedSet now req.leaseSeconds),
    (orderBy claimedLe (t.returning picked set)).map fun r =>
      { toEmailRow := r, unsettledInBatch := unsettledInBatch t now req r })

/-! ## settle -/

/-- `UPDATE … WHERE leasedAll(leases)` and the leases it wrote. No lease, no
statement. -/
def updateLeased (t : EmailTable) (leases : List LeaseKey)
    (changes : EmailRow → EmailRow)
    (h : ∀ r, Keyed.key (changes r) = Keyed.key r) : EmailTable × List LeaseKey :=
  (t.update (leasedAll leases) changes h,
    (t.returning (leasedAll leases) changes).map fun r => ⟨r.id, r.attempts⟩)

def sentSet (now : Time) (providerMessageIds : List (String × String))
    (r : EmailRow) : EmailRow :=
  { r with
    status := .sent
    sentAt := some now
    nextAttemptAt := none
    lastError := none
    providerMessageId := providerMessageIds.lookup r.id }

def storedError (lastError : String) : String := sliceTo LAST_ERROR_MAX_LENGTH lastError

def failureChanges (now : Time) (failure : EmailFailure) (r : EmailRow) : EmailRow :=
  match failure with
  | .failed lastError =>
      { r with status := .failed, lastError := some (storedError lastError)
               nextAttemptAt := none }
  | .pending lastError retryAfterSeconds =>
      { r with status := .pending, lastError := some (storedError lastError)
               nextAttemptAt := some (secondsFromNow now retryAfterSeconds) }
  | .dead lastError retryAfterSeconds =>
      { r with status := .dead, lastError := some (storedError lastError)
               nextAttemptAt := some (secondsFromNow now retryAfterSeconds) }

theorem failureChanges_id (now : Time) (failure : EmailFailure) (r : EmailRow) :
    (failureChanges now failure r).id = r.id := by
  cases failure <;> rfl

theorem failureChanges_attempts (now : Time) (failure : EmailFailure) (r : EmailRow) :
    (failureChanges now failure r).attempts = r.attempts := by
  cases failure <;> rfl

def markSent (t : EmailTable) (now : Time) (leases : List LeaseKey)
    (providerMessageIds : List (String × String)) : EmailTable × List LeaseKey :=
  updateLeased t leases (sentSet now providerMessageIds) fun _ => rfl

def assignBatch (t : EmailTable) (leases : List LeaseKey) (batchKey : String) :
    EmailTable × List LeaseKey :=
  updateLeased t leases (fun r => { r with batchKey := some batchKey }) fun _ => rfl

def markFailed (t : EmailTable) (now : Time) (leases : List LeaseKey)
    (failure : EmailFailure) : EmailTable × List LeaseKey :=
  updateLeased t leases (failureChanges now failure) (failureChanges_id now failure)

def postponedSet (now : Time) (delaySeconds : Nat) (r : EmailRow) : EmailRow :=
  { (releasedSet now r) with nextAttemptAt := some (secondsFromNow now delaySeconds) }

def release (t : EmailTable) (now : Time) (leases : List LeaseKey)
    (delaySeconds : Nat) : EmailTable × List LeaseKey :=
  updateLeased t leases (postponedSet now delaySeconds) fun _ => rfl

/-! ## What the statements guarantee -/

theorem mem_claimDue {t : EmailTable} {now : Time} {locked : String → Bool}
    {req : EmailClaimRequest} {r : EmailRow} (h : r ∈ claimDue t now locked req) :
    r ∈ freeRows t locked ∧ (pendingDue now r = true ∨ deadDue now req r = true) := by
  rcases List.mem_append.1 h with hp | hs
  · exact mem_pickDue hp
  · have hs := List.mem_filter.1 hs
    simp only [Bool.and_eq_true, Bool.or_eq_true] at hs
    exact ⟨hs.1, hs.2.2⟩

theorem claimPicked_due {t : EmailTable} {now : Time} {locked : String → Bool}
    {req : EmailClaimRequest} {r : EmailRow} (hr : r ∈ t.rows)
    (h : claimPicked t now locked req r = true) :
    locked r.id = false ∧ (pendingDue now r = true ∨ deadDue now req r = true) := by
  obtain ⟨-, h⟩ := Bool.and_eq_true_iff.1 h
  have hdue : ∀ d ∈ claimDue t now locked req, d ∈ t.rows := fun d hd =>
    (mem_freeRows.1 (mem_claimDue hd).1).1
  have hmem := mem_claimDue (mem_of_joins hdue hr h)
  exact ⟨(mem_freeRows.1 hmem.1).2, hmem.2⟩

theorem claimPicked_dueAt {t : EmailTable} {now : Time} {locked : String → Bool}
    {req : EmailClaimRequest} {r : EmailRow} (hr : r ∈ t.rows)
    (h : claimPicked t now locked req r = true) {d : Time}
    (hd : r.nextAttemptAt = some d) : d ≤ now := by
  rcases (claimPicked_due hr h).2 with h | h
  · simp only [pendingDue, Bool.and_eq_true] at h
    exact due_le_of_isDue h.2 hd
  · simp only [deadDue, Bool.and_eq_true] at h
    exact due_le_of_isDeadDue h.1.2 hd

section Claim

variable {t : EmailTable} {now : Time} {locked : String → Bool} {req : EmailClaimRequest}

theorem claim_rows : (claim t now locked req).2.map EmailMessageRecord.toEmailRow =
    orderBy claimedLe (t.returning (claimPicked t now locked req)
      (claimedSet now req.leaseSeconds)) := by
  simp [claim, Function.comp_def]

theorem nodup_claim : ((claim t now locked req).2.map fun r => r.id).Nodup := by
  have hids : (claim t now locked req).2.map (fun r => r.id) =
      ((claim t now locked req).2.map EmailMessageRecord.toEmailRow).map EmailRow.id := by
    rw [List.map_map]
    rfl
  rw [hids, claim_rows]
  exact ((orderBy_perm _ _).map _).nodup_iff.2
    (Table.nodup_returning (key_claimedSet now req.leaseSeconds))

theorem mem_claim {r : EmailMessageRecord} (h : r ∈ (claim t now locked req).2) :
    ∃ r₀ ∈ t.rows, claimPicked t now locked req r₀ = true ∧
      r.toEmailRow = claimedSet now req.leaseSeconds r₀ ∧
      r.unsettledInBatch = unsettledInBatch t now req r.toEmailRow := by
  simp only [claim, List.mem_map] at h
  obtain ⟨row, hrow, rfl⟩ := h
  obtain ⟨r₀, hr₀, hp, rfl⟩ := Table.mem_returning.1 (mem_orderBy.1 hrow)
  exact ⟨r₀, hr₀, hp, rfl, rfl⟩

theorem mem_table_of_claim {c : EmailMessageRecord} (h : c ∈ (claim t now locked req).2) :
    c.toEmailRow ∈ (claim t now locked req).1.rows := by
  obtain ⟨r, hr, hp, heq, -⟩ := mem_claim h
  have himage := Table.mem_update_of_mem hr (claimPicked t now locked req)
    (key_claimedSet now req.leaseSeconds)
  rw [if_pos hp] at himage
  exact heq ▸ himage

end Claim

end CleanStack.Email
