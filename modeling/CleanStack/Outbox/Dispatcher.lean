import CleanStack.Lib.Runs

/-!
# When the outbox is drained

`OutboxDispatcher` drains the outbox when it is told of a row and when it knows
one to be due. Its methods run between two awaits without anything in between,
so a step here is one of these stretches of code: a call of `start` or `stop`,
the rest of one after an await, a callback of the listener or of a timer, or what
a drain does on the answer it waits for. The environment chooses the answers and
the order.

Calls, drains, relays and timers are numbered in the order they are made. The
listener may notify or reconnect at any time, also when it should be silent.
-/

namespace CleanStack.Outbox

def POLL_INTERVAL_MS : Nat := 30000
def EMPTY_DRAIN_FLOOR_MS : Nat := 50
def FAILED_DRAIN_RETRY_MS : Nat := 2000

/-- Where a run of `drainUntilQuiet` waits: for its span to open, in `drainOnce`
after the claim began, in `pendingState`, or for the answer of
`drainThenPlanNextWake`. -/
inductive DrainPhase
  | entered (relay : Option Nat)
  | claiming
  | planning (handled : Nat)
  | planned (nextWakeMs : Nat)
  | finished
  deriving DecidableEq, Repr

inductive DrainAnswer
  | opened
  | drained (dispatched failed : Nat)
  | pending (dueInMs : Option Rat)
  | failed
  | resumed

inductive StartPhase
  | retiring
  | listening
  | resolved
  | rejected
  deriving DecidableEq, Repr

/-- A `stop` waits for the drain that was in flight, then for the listener. -/
inductive StopPhase
  | draining (inFlight : Option Nat)
  | unlistening
  | resolved
  deriving DecidableEq, Repr

/-- `relays` tells of each relay whether it is halted; `timers` are the armed
ones, `timer` the one the dispatcher knows of. -/
structure DispatcherState where
  started : Bool
  stopped : Bool
  draining : Bool
  wakeRequested : Bool
  relay : Option Nat
  relays : List Bool
  timer : Option Nat
  timers : List Nat
  nextTimer : Nat
  inFlight : Option Nat
  drains : List DrainPhase
  starts : List StartPhase
  stops : List StopPhase
  /-- How many claims have begun. -/
  claims : Nat
  deriving DecidableEq

inductive DispatcherEvent
  | start
  /-- The notify trigger is retired, or could not be. -/
  | retired (start : Nat)
  | listening (start : Nat)
  | rejected (start : Nat)
  | stop
  | awaited (stop : Nat)
  | unlistened (stop : Nat)
  | notification
  | reconnect
  | fire (timer : Nat)
  | drain (d : Nat) (answer : DrainAnswer)

def newDispatcher : DispatcherState where
  started := false
  stopped := true
  draining := false
  wakeRequested := false
  relay := none
  relays := []
  timer := none
  timers := []
  nextTimer := 0
  inFlight := none
  drains := []
  starts := []
  stops := []
  claims := 0

def nextWakeMsOf (handled : Nat) (dueInMs : Option Rat) : Nat :=
  let floorMs := if handled = 0 then EMPTY_DRAIN_FLOOR_MS else 0
  let nextDueMs := max floorMs (Rat.ceil (dueInMs.getD POLL_INTERVAL_MS)).toNat
  min nextDueMs POLL_INTERVAL_MS

namespace DispatcherState

variable (s : DispatcherState)

def clearTimer : DispatcherState :=
  { s with timers := s.timers.filter fun timer => some timer ≠ s.timer }

def setTimer : DispatcherState :=
  { s with
    timers := s.nextTimer :: s.timers
    timer := some s.nextTimer
    nextTimer := s.nextTimer + 1 }

def inDrain (d : Nat) (phase : DrainPhase) : DispatcherState :=
  { s with drains := s.drains.set d phase }

def wake : DispatcherState :=
  if s.stopped then s
  else if s.draining then { s with wakeRequested := true }
  else
    { s.clearTimer with
      draining := true
      inFlight := some s.drains.length
      wakeRequested := false
      drains := s.drains ++ [.entered s.relay] }

/-- `start`, up to its first await. -/
def begun : DispatcherState :=
  if s.started then { s with starts := s.starts ++ [.resolved] }
  else
    { s with
      started := true
      stopped := false
      relay := some s.relays.length
      relays := s.relays ++ [false]
      starts := s.starts ++ [.retiring] }

/-- `stop`, up to its first await. The grace timer it sets only makes the drain
of a halted relay end sooner. -/
def halted : DispatcherState :=
  { s.clearTimer with
    started := false
    stopped := true
    relays := s.relay.elim s.relays fun relay => s.relays.set relay true
    stops := s.stops ++ [.draining s.inFlight] }

/-- The end of the loop's body: once more, or the next timer. -/
def afterPlan (d nextWakeMs : Nat) : DispatcherState :=
  if !s.stopped && (s.wakeRequested || nextWakeMs == 0) then
    { s.inDrain d (.entered s.relay) with wakeRequested := false }
  else
    let quiet := { s.inDrain d .finished with draining := false }
    if s.stopped then quiet else quiet.setTimer

/-- `drainOnce`, up to the claim, which a halted relay does not make. -/
def drainOnce (d : Nat) (isHalted : Bool) : DispatcherState :=
  if isHalted then s.inDrain d (.planning 0)
  else { s.inDrain d .claiming with claims := s.claims + 1 }

end DispatcherState

def drainStep (s : DispatcherState) (d : Nat) : DrainPhase → DrainAnswer → Option DispatcherState
  | .entered none, .opened => some (s.inDrain d (.planned POLL_INTERVAL_MS))
  | .entered (some relay), .opened => s.relays[relay]?.map (s.drainOnce d)
  | .claiming, .drained dispatched failed => some (s.inDrain d (.planning (dispatched + failed)))
  | .claiming, .failed => some (s.inDrain d (.planned FAILED_DRAIN_RETRY_MS))
  | .planning handled, .pending dueInMs =>
      some (s.inDrain d (.planned (nextWakeMsOf handled dueInMs)))
  | .planning _, .failed => some (s.inDrain d (.planned FAILED_DRAIN_RETRY_MS))
  | .planned nextWakeMs, .resumed => some (s.afterPlan d nextWakeMs)
  | _, _ => none

def dispatcherStep (s : DispatcherState) : DispatcherEvent → Option DispatcherState
  | .start => some s.begun
  | .retired i =>
      if s.starts[i]? = some .retiring then some { s with starts := s.starts.set i .listening }
      else none
  | .listening i =>
      if s.starts[i]? = some .listening then
        some { s with starts := s.starts.set i .resolved }.wake
      else none
  | .rejected i =>
      if s.starts[i]? = some .retiring ∨ s.starts[i]? = some .listening then
        some { s with starts := s.starts.set i .rejected }
      else none
  | .stop => some s.halted
  | .awaited i =>
      s.stops[i]?.bind fun
        | .draining inFlight =>
            if inFlight.all fun d => s.drains[d]? = some .finished then
              some { s with stops := s.stops.set i .unlistening }
            else none
        | _ => none
  | .unlistened i =>
      if s.stops[i]? = some .unlistening then
        some { s with stops := s.stops.set i .resolved }
      else none
  | .notification => some s.wake
  | .reconnect => some s.wake
  | .fire timer =>
      if timer ∈ s.timers then some { s with timers := s.timers.erase timer }.wake else none
  | .drain d answer => s.drains[d]?.bind fun phase => drainStep s d phase answer

end CleanStack.Outbox
