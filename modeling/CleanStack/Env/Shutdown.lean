import CleanStack.Env.Bounds

/-!
# Shutting down

The steps run one after the other, each until it settles or its own timer fires, and
all of them race one deadline. When a step settles, and whether at all, is up to it;
timers fire on time, and where a timer and a step are due at one moment either may
come first. Times are milliseconds.
-/

namespace CleanStack.Env

def DEFAULT_STEP_TIMEOUT_MS : Nat := 5000

structure ShutdownStep where
  name : String
  timeoutMs : Option Nat
  skipAfterTimeoutOf : Option String

inductive StepOutcome
  | done
  | failed
  | timeout
  deriving DecidableEq

/-- What becomes of a promise: when it settles and whether it is fulfilled, if it
settles at all, and which comes first should a timer be due just then. -/
structure Settling where
  settles : Option (Rat × Bool)
  timerFirst : Bool

/-- `raceWithTimeout`: what won, and after what time. `none` is the timeout, of
less than 2^31 ms: a timer that is set for longer fires after one. -/
def raceWithTimeout (work : Settling) (ms : Rat) : Option Bool × Rat :=
  match work.settles with
  | none => (none, ms)
  | some (after, fulfilled) =>
      if after < ms ∨ (after = ms ∧ work.timerFirst = false) then (some fulfilled, after)
      else (none, ms)

def outcomeOf : Option Bool → StepOutcome
  | some true => .done
  | some false => .failed
  | none => .timeout

def ShutdownStep.limit (step : ShutdownStep) : Rat :=
  (step.timeoutMs.getD DEFAULT_STEP_TIMEOUT_MS : Nat)

def runStep (step : ShutdownStep) (work : Settling) : StepOutcome × Rat :=
  let won := raceWithTimeout work step.limit
  (outcomeOf won.1, won.2)

structure StepAttempt where
  name : String
  startedAt : Rat
  outcome : StepOutcome

structure StepsRun where
  attempts : List StepAttempt
  allDone : Bool
  endedAt : Rat

/-- `work` is what the step of a name does when it is run. -/
def runAllFrom (work : String → Settling) :
    List ShutdownStep → Bool → List String → Rat → StepsRun
  | [], allDone, _, clock => ⟨[], allDone, clock⟩
  | step :: steps, allDone, timedOut, clock =>
      if step.skipAfterTimeoutOf.any fun name => name ≠ "" && timedOut.contains name then
        runAllFrom work steps allDone timedOut clock
      else
        let ran := runStep step (work step.name)
        let rest := match ran.1 with
          | .done => runAllFrom work steps allDone timedOut (clock + ran.2)
          | .failed => runAllFrom work steps false timedOut (clock + ran.2)
          | .timeout => runAllFrom work steps false (step.name :: timedOut) (clock + ran.2)
        { rest with attempts := ⟨step.name, clock, ran.1⟩ :: rest.attempts }

def runAll (work : String → Settling) (steps : List ShutdownStep) : StepsRun :=
  runAllFrom work steps true [] 0

structure ShutdownEnd where
  attempts : List StepAttempt
  code : Nat
  exitedAt : Rat
  /-- The deadline came before the steps were through. -/
  cut : Bool

/-- `stepsFirst` is for steps that end just when the deadline comes, and `flush` is
what the flush on the deadline does. -/
def runShutdown (work : String → Settling) (stepsFirst : Bool) (flush : Settling)
    (steps : List ShutdownStep) (deadlineMs : Nat) : ShutdownEnd :=
  let ran := runAll work steps
  if ran.endedAt < deadlineMs ∨ (ran.endedAt = deadlineMs ∧ stepsFirst = true) then
    ⟨ran.attempts, if ran.allDone then 0 else 1, ran.endedAt, false⟩
  else
    let flushed := runStep ⟨"deadline-flush", some DEADLINE_FLUSH_TIMEOUT_MS, none⟩ flush
    let exitedAt := deadlineMs + flushed.2
    ⟨ran.attempts.filter fun a => a.startedAt < exitedAt, 1, exitedAt, true⟩

/-- The steps `index.ts` installs. -/
def installedSteps (env : EnvBounds) : List ShutdownStep := [
  ⟨"signal-and-grace", some (env.SHUTDOWN_GRACE_PERIOD_MS + GRACE_MARGIN_MS), none⟩,
  ⟨"http", some env.SHUTDOWN_STEP_TIMEOUT_MS, none⟩,
  ⟨"workers", some env.SHUTDOWN_WORKERS_TIMEOUT_MS, none⟩,
  ⟨"database-pool", some env.SHUTDOWN_STEP_TIMEOUT_MS, some "workers"⟩,
  ⟨"telemetry-flush", some (TELEMETRY_FLUSH_TIMEOUT_MS + TELEMETRY_FLUSH_MARGIN_MS), none⟩]

end CleanStack.Env
