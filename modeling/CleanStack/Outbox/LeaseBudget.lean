import Mathlib.Algebra.Order.Field.Rat
import Mathlib.Tactic.Linarith

/-!
# Units of work under a lease

A worker counts its lease down on its own clock, from before it claims, and asks
before every unit after the first whether what is left covers the unit and its
margin. The clock is read in milliseconds and may start anywhere; that it runs as
fast as the database's is what both rely on. Everything else is timed in seconds
since the countdown began.
-/

namespace CleanStack.Outbox

structure LeaseBudget where
  unitSeconds : Nat
  marginSeconds : Nat

def unitsWithinLease (leaseSeconds : Nat) (budget : LeaseBudget) : Nat :=
  max 1 ((leaseSeconds - budget.marginSeconds) / budget.unitSeconds)

structure LeaseCountdown where
  deadline : Rat
  neededMs : Rat

/-- `clock` is what the clock says when the countdown begins. -/
def leaseCountdown (leaseSeconds : Nat) (budget : LeaseBudget) (clock : Rat) : LeaseCountdown where
  deadline := clock + leaseSeconds * 1000
  neededMs := (budget.unitSeconds + budget.marginSeconds) * 1000

def LeaseCountdown.coversNextUnit (lease : LeaseCountdown) (clock : Rat) : Bool :=
  lease.neededMs ≤ lease.deadline - clock

/-- What the clock says after some seconds. -/
def clockAfter (clock seconds : Rat) : Rat := clock + seconds * 1000

/-- How a unit goes: what it does before its request, the request, and what it
does with the answer. `stopping` is whether the worker has been stopped when the
unit is up, and `throws` whether the unit throws at its end. -/
structure UnitRun where
  stopping : Bool
  before : Rat
  request : Rat
  after : Rat
  throws : Bool

def UnitRun.seconds (run : UnitRun) : Rat := run.before + run.request + run.after

structure Started (α : Type) where
  unit : α
  start : Rat
  run : UnitRun

/-- What became of the units: started, given back, or neither. -/
structure Drained (α : Type) where
  started : List (Started α)
  released : List α
  left : List α

/-- The loop over the units; `first` is whether it is at index 0, and `catches`
whether a unit that throws is caught. -/
def drainUnits {α : Type} (catches : Bool) (lease : LeaseCountdown) (clock : Rat) :
    Bool → Rat → List (α × UnitRun) → Drained α
  | _, _, [] => ⟨[], [], []⟩
  | first, now, (unit, run) :: rest =>
      if run.stopping || (!first && !lease.coversNextUnit (clockAfter clock now)) then
        ⟨[], unit :: rest.map Prod.fst, []⟩
      else if run.throws && !catches then ⟨[⟨unit, now, run⟩], [], rest.map Prod.fst⟩
      else
        let later := drainUnits catches lease clock false (now + run.seconds) rest
        { later with started := ⟨unit, now, run⟩ :: later.started }

theorem coversNextUnit_iff {leaseSeconds : Nat} {budget : LeaseBudget} {clock now : Rat} :
    (leaseCountdown leaseSeconds budget clock).coversNextUnit (clockAfter clock now) = true ↔
      (budget.unitSeconds + budget.marginSeconds : Rat) ≤ leaseSeconds - now := by
  have hneeded : (leaseCountdown leaseSeconds budget clock).coversNextUnit
      (clockAfter clock now) = true ↔ (budget.unitSeconds + budget.marginSeconds : Rat) * 1000 ≤
        clock + leaseSeconds * 1000 - (clock + now * 1000) := decide_eq_true_iff
  rw [hneeded]
  constructor <;> intro h <;> linarith

end CleanStack.Outbox
