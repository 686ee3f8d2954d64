import Mathlib.Algebra.GroupWithZero.Nat
import Mathlib.Order.Basic

/-!
# Retry delays

The delays of every queue. A delay is drawn between a base and an upper bound
that grows with the attempts; the draw is `Math.random()`, a multiple of
`2⁻⁵³` below one, and is passed in as its numerator.
-/

namespace CleanStack.Outbox

def JITTER_BASE_MS : Nat := 1000
def JITTER_CAP_MS : Nat := 12 * 60 * 60 * 1000
def JITTER_MULTIPLIER : Nat := 3

/-- `Math.random() * 2 ^ 53`. -/
abbrev Draw := Fin (2 ^ 53)

instance draws_neZero : NeZero (2 ^ 53 : Nat) := ⟨by decide⟩

def nextDelayMs (lastDelayMs : Nat) (random : Draw) : Nat :=
  let upper := max JITTER_BASE_MS (JITTER_MULTIPLIER * lastDelayMs)
  min JITTER_CAP_MS (JITTER_BASE_MS + random * (upper - JITTER_BASE_MS) / 2 ^ 53)

def expectedDelayFromAttempts (currentAttempts : Int) : Nat :=
  JITTER_BASE_MS * JITTER_MULTIPLIER ^ currentAttempts.toNat

/-- `Math.ceil` of the delay in seconds. -/
def retryAfterSeconds (attempts : Int) (random : Draw) : Nat :=
  (nextDelayMs (expectedDelayFromAttempts attempts) random + 999) / 1000

structure FailurePolicy where
  wasDead : Bool
  maxAttempts : Int
  deadRetrySeconds : Nat

structure FailureSchedule where
  dead : Bool
  retryAfterSeconds : Nat

def failureSchedule (attempts : Int) (policy : FailurePolicy) (random : Draw) :
    FailureSchedule :=
  let dead := policy.wasDead || policy.maxAttempts ≤ attempts
  { dead := dead
    retryAfterSeconds :=
      if dead then policy.deadRetrySeconds else retryAfterSeconds attempts random }

end CleanStack.Outbox
