import CleanStack.Sweep.Runner

/-!
# One pass from its call to its report

`runBatchedSweep` by itself, with the batches it runs written down: the clock and
what each batch comes to are the environment's.
-/

namespace CleanStack.Sweep

/-- `now` and `purgeBatch` are what the clock says before the batch of that number and
what that batch comes to, with the decision of `onBatchError` for its failure. -/
structure RunBatchedSweepOptions where
  countEligible : Option Nat
  deadlineAt : Option Nat
  now : Nat → Nat
  purgeBatch : Nat → Except SweepBatchErrorDecision Nat

/-- The batches a pass ran, and its report unless it threw. -/
structure BatchedRun where
  batches : List (Except SweepBatchErrorDecision Nat)
  result : Option SweepRunResult

variable (opts : RunBatchedSweepOptions)

/-- The deadline has come before the batch of that number. -/
def RunBatchedSweepOptions.spent (batchCount : Nat) : Bool :=
  opts.deadlineAt.any fun deadlineAt => deadlineAt ≤ opts.now batchCount

/-- Below the loop. -/
def report (totalDeleted batchCount : Nat) (stopReason : SweepStopReason) : SweepRunResult :=
  ⟨totalDeleted, batchCount,
    if stopReason = .exhausted ∧ MAX_BATCHES ≤ batchCount then .batchCap else stopReason⟩

/-- `left` is how often the loop may still be entered, `MAX_BATCHES - batchCount`. -/
def sweepLoop : Nat → Nat → Nat → BatchedRun
  | 0, totalDeleted, batchCount => ⟨[], some (report totalDeleted batchCount .exhausted)⟩
  | left + 1, totalDeleted, batchCount =>
      if opts.spent batchCount then ⟨[], some (report totalDeleted batchCount .budget)⟩
      else
        match opts.purgeBatch batchCount with
        | .error .throws => ⟨[.error .throws], none⟩
        | .error .breaks => ⟨[.error .breaks], some (report totalDeleted batchCount .batchError)⟩
        | .ok deletedInBatch =>
            if deletedInBatch = 0 then
              ⟨[.ok 0], some (report totalDeleted (batchCount + 1) .exhausted)⟩
            else
              let rest := sweepLoop left (totalDeleted + deletedInBatch) (batchCount + 1)
              { rest with batches := .ok deletedInBatch :: rest.batches }

def runBatchedSweep (dryRun : Bool) : BatchedRun :=
  if dryRun then ⟨[], opts.countEligible.map fun deleted => ⟨deleted, 0, .exhausted⟩⟩
  else sweepLoop opts MAX_BATCHES 0 0

end CleanStack.Sweep
