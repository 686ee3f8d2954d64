import CleanStack.Kit.JsText
import CleanStack.Outbox.Store
import CleanStack.Sweep.BatchedSweep
import CleanStack.Webhooks.Store

/-!
# The sweep of the outbox

Dispatched events are deleted once they are older than the cutoff, the oldest first,
a batch in one statement. A delivery restricts the deletion of its event, and the
database refuses a statement that would delete one as a whole.

Events dispatched at the same time have no order among them, so which of them a batch
takes is left to the database.
-/

namespace CleanStack.Sweep

open CleanStack.Drizzle CleanStack.Kit CleanStack.Lib CleanStack.Outbox CleanStack.Webhooks

def buildPurgeFilter (cutoff : Time) (event : OutboxRow) : Bool :=
  event.dispatchedAt.any fun dispatchedAt => dispatchedAt < cutoff

def dispatchedBefore (a b : OutboxRow) : Prop :=
  ∀ x y, a.dispatchedAt = some x → b.dispatchedAt = some y → x ≤ y

/-- What the locking subquery may select, no row being locked. -/
structure LockedBatch (cutoff : Time) (batchSize : Nat) (t : OutboxTable)
    (batch : List OutboxRow) : Prop where
  eligible : ∀ r ∈ batch, r ∈ t.rows ∧ buildPurgeFilter cutoff r = true
  nodup : batch.Nodup
  length : batch.length = min batchSize (t.rows.countP (buildPurgeFilter cutoff))
  oldest : ∀ r ∈ batch, ∀ r' ∈ t.rows, buildPurgeFilter cutoff r' = true → r' ∉ batch →
    dispatchedBefore r r'

/-- A database, by what it selects. -/
structure BatchChoice (cutoff : Time) (batchSize : Nat) where
  batch : OutboxTable → List OutboxRow
  locked : ∀ t, LockedBatch cutoff batchSize t (batch t)

/-- An error as it reaches `onBatchError`. -/
structure BatchError where
  message : String
  code : Option String

def isForeignKeyViolation (err : BatchError) : Bool :=
  includes err.message.toList "violates foreign key constraint".toList || err.code = some "23503"

def onBatchError (err : BatchError) : SweepBatchErrorDecision :=
  if !isForeignKeyViolation err then .throws else .breaks

/-- A delivery references the event. -/
def referenced (deliveries : DeliveryTable) (event : OutboxRow) : Bool :=
  deliveries.rows.any fun d => d.outboxEventId = event.id

def inBatch (batch : List OutboxRow) (r : OutboxRow) : Bool := batch.any fun b => b.id = r.id

/-- The number of rows it returns and the table it leaves, or nothing where the
foreign key refuses it. -/
def purgeBatchWithTimeout (deliveries : DeliveryTable) (t : OutboxTable)
    (batch : List OutboxRow) : Option (Nat × OutboxTable) :=
  if t.rows.any fun r => inBatch batch r && referenced deliveries r then none
  else some ((t.rows.filter (inBatch batch)).length, t.delete (inBatch batch))

section Run

variable {cutoff : Time} {batchSize : Nat} (choice : BatchChoice cutoff batchSize)
  (deliveries : DeliveryTable)

/-- One batch on a table. -/
def purgeOnce (t : OutboxTable) : Option (Nat × OutboxTable) :=
  purgeBatchWithTimeout deliveries t (choice.batch t)

/-- The table after that many batches. -/
def tableAfter (t : OutboxTable) : Nat → OutboxTable
  | 0 => t
  | n + 1 => ((purgeOnce choice deliveries (tableAfter t n)).map Prod.snd).getD (tableAfter t n)

/-- `refusal` is what the driver throws when the foreign key refuses a batch. -/
def outboxPass (refusal : BatchError) (deadlineAt : Option Nat) (now : Nat → Nat)
    (t : OutboxTable) : RunBatchedSweepOptions :=
  { countEligible := some (t.rows.countP (buildPurgeFilter cutoff))
    deadlineAt
    now
    purgeBatch := fun i =>
      match purgeOnce choice deliveries (tableAfter choice deliveries t i) with
      | some purged => .ok purged.1
      | none => .error (onBatchError refusal) }

end Run

/-! ## A database that breaks ties by the order of the table -/

def dispatchedLe (a b : OutboxRow) : Bool :=
  decide (a.dispatchedAt.getD 0 ≤ b.dispatchedAt.getD 0)

def oldestFirst (cutoff : Time) (batchSize : Nat) (t : OutboxTable) : List OutboxRow :=
  ((t.rows.filter (buildPurgeFilter cutoff)).insertionSort fun a b => dispatchedLe a b = true).take
    batchSize

theorem lockedBatch_oldestFirst (cutoff : Time) (batchSize : Nat) (t : OutboxTable) :
    LockedBatch cutoff batchSize t (oldestFirst cutoff batchSize t) := by
  let r : OutboxRow → OutboxRow → Prop := fun a b => dispatchedLe a b = true
  have : Std.Total r := ⟨fun a b => by
    simp only [r, dispatchedLe, decide_eq_true_eq]
    exact Nat.le_total _ _⟩
  have : IsTrans OutboxRow r := ⟨fun a b c hab hbc => by
    simp only [r, dispatchedLe, decide_eq_true_eq] at hab hbc ⊢
    exact hab.trans hbc⟩
  have hperm := List.perm_insertionSort r (t.rows.filter (buildPurgeFilter cutoff))
  have hsorted := List.pairwise_insertionSort r (t.rows.filter (buildPurgeFilter cutoff))
  have hrows : t.rows.Nodup := List.Nodup.of_map _ t.nodup
  refine ⟨fun a ha => ?_, ?_, ?_, fun a ha b hb hfilter hleft x y hx hy => ?_⟩
  · exact List.mem_filter.1 (hperm.mem_iff.1 (List.mem_of_mem_take ha))
  · exact (hperm.nodup_iff.2 (hrows.filter _)).sublist (List.take_sublist _ _)
  · rw [oldestFirst, List.length_take, List.length_insertionSort, List.countP_eq_length_filter]
  · have hmem := hperm.mem_iff.2 (List.mem_filter.2 ⟨hb, hfilter⟩)
    rw [← List.take_append_drop batchSize
      ((t.rows.filter (buildPurgeFilter cutoff)).insertionSort r)] at hsorted hmem
    have hdrop := (List.mem_append.1 hmem).resolve_left hleft
    have hle := (List.pairwise_append.1 hsorted).2.2 a ha b hdrop
    simp only [r, dispatchedLe, decide_eq_true_eq, hx, hy, Option.getD_some] at hle
    exact hle

end CleanStack.Sweep
