import CleanStack.Lib.Runs
import CleanStack.Sweep.Lock

/-!
# Retention sweeps

A sweep takes the lease of its label, goes through its passes one after the
other and gives the lease back. A pass deletes in batches until one finds
nothing, the deadline has come, there were too many or one fails; the deadline
is looked at before each batch, and a batch takes as long as it takes.

Every request is a run of its own that moves one await at a time, and any number
of them interleave, of one label or of many. What a batch deletes or fails with
and which answers of the database are lost are choices of the environment, and a
run that is left alone has crashed.
-/

namespace CleanStack.Sweep

open CleanStack.Lib CleanStack.Drizzle

def MAX_BATCHES : Nat := 1000

inductive SweepBatchErrorDecision
  | breaks
  | throws
  deriving DecidableEq

inductive SweepStopReason
  | exhausted
  | budget
  | batchCap
  | batchError
  deriving DecidableEq

structure SweepRunResult where
  deleted : Nat
  batchCount : Nat
  stopReason : SweepStopReason
  deriving DecidableEq

structure SweepResponse where
  deleted : Nat
  dryRun : Bool
  batchCount : Nat
  deletedPerPass : List (String × Nat)
  stopReasons : List (String × SweepStopReason)
  truncated : Bool
  skipped : Bool
  deriving DecidableEq

/-- The response of a run that was refused the lease. -/
def skippedResponse (dryRun : Bool) : SweepResponse :=
  { deleted := 0
    dryRun
    batchCount := 0
    deletedPerPass := []
    stopReasons := []
    truncated := false
    skipped := true }

def SweepStopReason.truncates (reason : SweepStopReason) : Bool :=
  reason = .budget || reason = .batchCap

def sweepResponse (dryRun : Bool) (results : List (String × SweepRunResult)) : SweepResponse :=
  { deleted := (results.map fun r => r.2.deleted).sum
    dryRun
    batchCount := (results.map fun r => r.2.batchCount).sum
    deletedPerPass := results.map fun r => (r.1, r.2.deleted)
    stopReasons := results.map fun r => (r.1, r.2.stopReason)
    truncated := results.any fun r => r.2.stopReason.truncates
    skipped := false }

/-! ## One pass -/

inductive BatchNext
  | again (totalDeleted batchCount : Nat)
  | stop (result : SweepRunResult)
  | throws

/-- The head of the loop: the result if it is left there. -/
def loopHead (now deadlineAt totalDeleted batchCount : Nat) : Option SweepRunResult :=
  if batchCount < MAX_BATCHES then
    if deadlineAt ≤ now then some ⟨totalDeleted, batchCount, .budget⟩ else none
  else some ⟨totalDeleted, batchCount, .batchCap⟩

/-- The rest of the loop, once the batch has answered. -/
def afterBatch (totalDeleted batchCount : Nat) :
    Except SweepBatchErrorDecision Nat → BatchNext
  | .error .throws => .throws
  | .error .breaks => .stop ⟨totalDeleted, batchCount, .batchError⟩
  | .ok 0 => .stop ⟨totalDeleted, batchCount + 1,
      if MAX_BATCHES ≤ batchCount + 1 then .batchCap else .exhausted⟩
  | .ok deletedInBatch => .again (totalDeleted + deletedInBatch) (batchCount + 1)

/-! ## Runs side by side -/

inductive SweepPhase
  | started
  | asking (lockedAt : Time)
  /-- Before a batch, or between two passes. -/
  | between (totalDeleted batchCount : Nat)
  | batching (totalDeleted batchCount : Nat)
  | releasing (failed : Bool)
  | over (response : Option SweepResponse)
  deriving DecidableEq

/-- `passes` are the labels of the passes that have not ended, and `lease` is what
the run asked for. -/
structure SweepRun where
  label : String
  dryRun : Bool
  startMs : Nat
  passes : List String
  results : List (String × SweepRunResult)
  lease : Option SweepLease
  phase : SweepPhase
  deriving DecidableEq

def SweepRun.passEnded (run : SweepRun) (result : SweepRunResult) : SweepRun :=
  { run with
    passes := run.passes.tail
    results := run.results ++ (run.passes.head?.map fun label => (label, result)).toList
    phase := .between 0 0 }

/-- `drawn` are the owners that have been drawn so far. -/
structure SweepState where
  clock : Time
  locks : SweepLockTable
  drawn : List String
  runs : List SweepRun

inductive SweepEvent
  | call (label : String) (passes : List String) (dryRun : Bool)
  | ask (i : Nat) (owner : String)
  | acquire (i : Nat) (answered : Bool)
  | turn (i : Nat)
  /-- A dry run counts, or fails to. -/
  | count (i : Nat) (eligible : Option Nat)
  | purged (i : Nat) (outcome : Except SweepBatchErrorDecision Nat)
  | release (i : Nat) (executed : Bool)
  | wait (n : Nat)

def SweepState.setRun (s : SweepState) (i : Nat) (run : SweepRun) : SweepState :=
  { s with runs := s.runs.set i run }

variable (deadlineMs : Nat)

/-- `SWEEP_DEADLINE_MS * 2` from now. -/
def leaseFor (clock : Time) (owner : String) : SweepLease :=
  ⟨owner, dateOf (dateNow clock + deadlineMs * 2)⟩

/-- From one await of a run that has the lease to the next. -/
def turn (now : Nat) (run : SweepRun) (totalDeleted batchCount : Nat) : SweepRun :=
  if run.passes.isEmpty then { run with phase := .releasing false }
  else
    match loopHead now (run.startMs + deadlineMs) totalDeleted batchCount with
    | some result => run.passEnded result
    | none => { run with phase := .batching totalDeleted batchCount }

def sweepStep (s : SweepState) : SweepEvent → Option SweepState
  | .call label passes dryRun =>
      some { s with
        runs := s.runs ++ [⟨label, dryRun, dateNow s.clock, passes, [], none, .started⟩] }
  | .ask i owner =>
      s.runs[i]?.bind fun run =>
        if run.phase = .started ∧ owner ∉ s.drawn then
          some { s.setRun i { run with
              lease := some (leaseFor deadlineMs s.clock owner)
              phase := .asking (dateOf (dateNow s.clock)) } with
            drawn := owner :: s.drawn }
        else none
  | .acquire i answered =>
      s.runs[i]?.bind fun run =>
        match run.phase, run.lease with
        | .asking lockedAt, some lease =>
            let acquired := acquireSweepLease s.locks s.clock run.label lease lockedAt
            let phase : SweepPhase :=
              if answered then
                if acquired.2 then .between 0 0 else .over (some (skippedResponse run.dryRun))
              else .over none
            some { s.setRun i { run with phase } with locks := acquired.1 }
        | _, _ => none
  | .turn i =>
      s.runs[i]?.bind fun run =>
        match run.phase with
        | .between totalDeleted batchCount =>
            if run.dryRun && !run.passes.isEmpty then none
            else some (s.setRun i (turn deadlineMs (dateNow s.clock) run totalDeleted batchCount))
        | _ => none
  | .count i eligible =>
      s.runs[i]?.bind fun run =>
        match run.phase with
        | .between _ _ =>
            if run.dryRun && !run.passes.isEmpty then
              some (s.setRun i (match eligible with
                | some n => run.passEnded ⟨n, 0, .exhausted⟩
                | none => { run with phase := .releasing true }))
            else none
        | _ => none
  | .purged i outcome =>
      s.runs[i]?.bind fun run =>
        match run.phase with
        | .batching totalDeleted batchCount =>
            some (s.setRun i (match afterBatch totalDeleted batchCount outcome with
              | .again totalDeleted batchCount =>
                  { run with phase := .between totalDeleted batchCount }
              | .stop result => run.passEnded result
              | .throws => { run with phase := .releasing true }))
        | _ => none
  | .release i executed =>
      s.runs[i]?.bind fun run =>
        match run.phase, run.lease with
        | .releasing failed, some lease =>
            some { s.setRun i { run with phase := .over (if failed then none
                else some (sweepResponse run.dryRun run.results)) } with
              locks := if executed then releaseSweepLease s.locks run.label lease.owner
                else s.locks }
        | _, _ => none
  | .wait n => some { s with clock := s.clock + n }

/-! ## The leases that are held -/

/-- Between winning the lease and giving it back. -/
def SweepPhase.holds : SweepPhase → Bool
  | .between _ _ => true
  | .batching _ _ => true
  | .releasing _ => true
  | _ => false

def SweepPhase.batches : SweepPhase → Bool
  | .batching _ _ => true
  | _ => false

def SweepRun.held? (run : SweepRun) : Option SweepLease :=
  if run.phase.holds then run.lease else none

theorem loopHead_eq_none {now deadlineAt totalDeleted batchCount : Nat}
    (h : loopHead now deadlineAt totalDeleted batchCount = none) : now < deadlineAt := by
  unfold loopHead at h
  split at h
  · split at h
    · cases h
    · omega
  · cases h

end CleanStack.Sweep
