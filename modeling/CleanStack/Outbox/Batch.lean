import CleanStack.Lib.Lanes
import CleanStack.Outbox.Relay
import Mathlib.Algebra.Order.Field.Rat

/-!
# The time a claimed batch takes

`eachBounded` starts a lane for each of the records that may be settled at once,
and a lane takes the next record whenever it is through with one. A record takes
as long as the slowest of its handlers, which `raceWithTimeout` gives up on after
the budget; what a statement takes is not counted. A statement that fails throws,
and with it ends the lane, while `Promise.allSettled` waits for the others.
-/

namespace CleanStack.Outbox

open CleanStack.Lib

/-- What becomes of a record a lane takes. -/
inductive RecordRun
  /-- The relay is halted: nothing runs, the record is given back. -/
  | release (throws : Bool)
  /-- Handlers run, for as many seconds as each would take. -/
  | settle (handlers : List Rat) (throws : Bool)

namespace RecordRun

def throws : RecordRun → Bool
  | .release throws => throws
  | .settle _ throws => throws

/-- How long `deliver` waits: for all handlers at once, for none longer than the
budget. -/
def seconds (handlerBudgetSeconds : Rat) : RecordRun → Rat
  | .release _ => 0
  | .settle handlers _ => (handlers.map fun handler => min handler handlerBudgetSeconds).foldr max 0

def task (handlerBudgetSeconds : Rat) (run : RecordRun) : LaneTask Rat :=
  ⟨run.seconds handlerBudgetSeconds, run.throws⟩

end RecordRun

/-- The spans of the records that are taken, in seconds since the claim. -/
def eachBounded (options : OutboxRelayOptions) (runs : List RecordRun) : List (LaneSpan Rat) :=
  runLanes (List.replicate (min options.concurrency runs.length) 0)
    (runs.map (RecordRun.task options.handlerBudgetSeconds))

/-- Every record that is taken is done with while the lease still covers its
settlement; with the last of them the others are abandoned. -/
def FitsLease (options : OutboxRelayOptions) (runs : List RecordRun) : Prop :=
  ∀ span ∈ eachBounded options runs,
    span.finish ≤ (options.leaseSeconds : Rat) - OUTBOX_SETTLE_MARGIN_SECONDS

end CleanStack.Outbox
