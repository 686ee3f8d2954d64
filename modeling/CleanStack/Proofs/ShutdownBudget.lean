import CleanStack.Env.Shutdown
import Mathlib.Tactic.Linarith

/-!
# The steps of a shutdown fit its deadline

A step takes no longer than its timer, whatever it does, so all of them take no longer
than their timers together; and these are what `worstCaseShutdownMs` adds up, less the
flush that only a deadline calls for.
-/

namespace CleanStack.Env

/-! ## The loop -/

theorem snd_runStep_le (step : ShutdownStep) (work : Settling) :
    (runStep step work).2 ≤ step.limit := by
  obtain ⟨settles, timerFirst⟩ := work
  rcases settles with _ | ⟨after, fulfilled⟩
  · exact le_rfl
  · simp only [runStep, raceWithTimeout]
    split_ifs with hfirst
    · rcases hfirst with hlt | ⟨heq, -⟩
      · exact hlt.le
      · exact heq.le
    · exact le_rfl

variable {work : String → Settling} {steps : List ShutdownStep} {allDone : Bool}
  {timedOut : List String} {clock : Rat}

/-- Skipped because of the step it depends on. -/
def skips (timedOut : List String) (step : ShutdownStep) : Bool :=
  step.skipAfterTimeoutOf.any fun name => name ≠ "" && timedOut.contains name

theorem runAllFrom_skip {step : ShutdownStep} (h : skips timedOut step = true) :
    runAllFrom work (step :: steps) allDone timedOut clock =
      runAllFrom work steps allDone timedOut clock := by
  rw [runAllFrom]
  exact if_pos h

/-- The steps that have timed out once a step has been run. -/
def timedOutAfter (timedOut : List String) (step : ShutdownStep) (outcome : StepOutcome) :
    List String :=
  if outcome = .timeout then step.name :: timedOut else timedOut

theorem runAllFrom_run {step : ShutdownStep} (h : skips timedOut step = false) :
    ∃ rest, rest = runAllFrom work steps
        (allDone && decide ((runStep step (work step.name)).1 = .done))
        (timedOutAfter timedOut step (runStep step (work step.name)).1)
        (clock + (runStep step (work step.name)).2) ∧
      runAllFrom work (step :: steps) allDone timedOut clock =
        { rest with
          attempts := ⟨step.name, clock, (runStep step (work step.name)).1⟩ :: rest.attempts } := by
  refine ⟨_, rfl, ?_⟩
  have hskip : ¬(step.skipAfterTimeoutOf.any fun name =>
      name ≠ "" && timedOut.contains name) = true := Bool.eq_false_iff.1 h
  rw [runAllFrom, if_neg hskip]
  cases hran : (runStep step (work step.name)).1 <;> simp [hran, timedOutAfter]

/-- No step takes longer than its timer. -/
theorem endedAt_runAllFrom_le :
    (runAllFrom work steps allDone timedOut clock).endedAt ≤
      clock + (steps.map ShutdownStep.limit).sum := by
  induction steps generalizing allDone timedOut clock with
  | nil => simp [runAllFrom]
  | cons step steps ih =>
    have hnonneg : 0 ≤ step.limit := Nat.cast_nonneg _
    rw [List.map_cons, List.sum_cons]
    cases hskip : skips timedOut step with
    | true =>
      rw [runAllFrom_skip hskip]
      have hrest := @ih allDone timedOut clock
      linarith
    | false =>
      obtain ⟨rest, hrest, hrun⟩ := @runAllFrom_run work steps allDone timedOut clock step hskip
      rw [hrun]
      show rest.endedAt ≤ _
      have hstep := snd_runStep_le step (work step.name)
      have hlater := hrest ▸ ih
      linarith

/-- Every attempted step was done, as far as the flag says. -/
theorem allDone_runAllFrom :
    (runAllFrom work steps allDone timedOut clock).allDone = true ↔
      allDone = true ∧
        ∀ a ∈ (runAllFrom work steps allDone timedOut clock).attempts, a.outcome = .done := by
  induction steps generalizing allDone timedOut clock with
  | nil => simp [runAllFrom]
  | cons step steps ih =>
    cases hskip : skips timedOut step with
    | true =>
      rw [runAllFrom_skip hskip]
      exact ih
    | false =>
      obtain ⟨rest, hrest, hrun⟩ := @runAllFrom_run work steps allDone timedOut clock step hskip
      rw [hrun]
      show rest.allDone = true ↔ _
      rw [hrest, ih, ← hrest, Bool.and_eq_true, decide_eq_true_eq, List.forall_mem_cons, and_assoc]

/-! ## The installed steps -/

variable {env : EnvBounds}

theorem sum_installedSteps (env : EnvBounds) :
    ((installedSteps env).map ShutdownStep.limit).sum + DEADLINE_FLUSH_TIMEOUT_MS =
      shutdownBudgetMs env := by
  simp only [installedSteps, shutdownBudgetMs, worstCaseShutdownMs, ShutdownStep.limit,
    List.map_cons, List.map_nil, List.sum_cons, List.sum_nil, Option.getD_some]
  push_cast
  linarith

theorem budget_of_accepted {shown : Rat → String}
    (h : validateEnvBounds shown env = []) :
    shutdownBudgetMs env ≤ env.SHUTDOWN_DEADLINE_MS := by
  simp only [validateEnvBounds, List.append_eq_nil_iff] at h
  obtain ⟨⟨⟨⟨⟨⟨-, hshutdown⟩, -⟩, -⟩, -⟩, -⟩, -⟩ := h
  exact Nat.not_lt.1 (issueIf_eq_nil.1 hshutdown)

theorem attempts_run {step : ShutdownStep} (h : skips timedOut step = false) :
    (runAllFrom work (step :: steps) allDone timedOut clock).attempts =
      ⟨step.name, clock, (runStep step (work step.name)).1⟩ ::
        (runAllFrom work steps (allDone && decide ((runStep step (work step.name)).1 = .done))
          (timedOutAfter timedOut step (runStep step (work step.name)).1)
          (clock + (runStep step (work step.name)).2)).attempts := by
  obtain ⟨rest, hrest, hrun⟩ := @runAllFrom_run work steps allDone timedOut clock step h
  rw [hrun, hrest]

theorem contains_timedOutAfter (timedOut : List String) (step : ShutdownStep)
    (outcome : StepOutcome) (name : String) :
    (timedOutAfter timedOut step outcome).contains name = true ↔
      (outcome = .timeout ∧ name = step.name) ∨ timedOut.contains name = true := by
  unfold timedOutAfter
  split_ifs with htimeout <;> simp [htimeout]

def workersStep (env : EnvBounds) : ShutdownStep :=
  ⟨"workers", some env.SHUTDOWN_WORKERS_TIMEOUT_MS, none⟩

/-- The three steps in front, and the pool and the flush behind them. -/
theorem attempts_installedSteps (env : EnvBounds) (work : String → Settling) :
    ∃ first second clock allDone timedOut clock',
      first.name = "signal-and-grace" ∧ second.name = "http" ∧
      (timedOut.contains "workers" = true ↔
        (runStep (workersStep env) (work "workers")).1 = .timeout) ∧
      (runAll work (installedSteps env)).attempts =
        first :: second ::
          ⟨"workers", clock, (runStep (workersStep env) (work "workers")).1⟩ ::
          (runAllFrom work ((installedSteps env).drop 3) allDone timedOut clock').attempts := by
  unfold runAll installedSteps
  rw [attempts_run, attempts_run, attempts_run]
  · refine ⟨_, _, _, _, _, _, rfl, rfl, ?_, rfl⟩
    rw [contains_timedOutAfter, contains_timedOutAfter, contains_timedOutAfter]
    constructor
    · rintro (⟨htimeout, -⟩ | ⟨-, hname⟩ | ⟨-, hname⟩ | hnone)
      · exact htimeout
      · exact absurd hname (show ¬"workers" = "http" by decide)
      · exact absurd hname (show ¬"workers" = "signal-and-grace" by decide)
      · cases hnone
    · exact fun htimeout => .inl ⟨htimeout, rfl⟩
  · rfl
  · rfl
  · rfl

/-- The pool is skipped where the workers have timed out. -/
theorem names_drop {timedOut : List String} :
    ((runAllFrom work ((installedSteps env).drop 3) allDone timedOut clock).attempts.map
        StepAttempt.name) =
      (if timedOut.contains "workers" then [] else ["database-pool"]) ++ ["telemetry-flush"] := by
  have hskips : skips timedOut ⟨"database-pool", some env.SHUTDOWN_STEP_TIMEOUT_MS, some "workers"⟩ =
      timedOut.contains "workers" := by
    rw [skips, Option.any_some]
    simp
  show (runAllFrom work (⟨"database-pool", _, _⟩ :: ⟨"telemetry-flush", _, _⟩ :: []) _ _ _).attempts.map
    _ = _
  split_ifs with hcontains
  · rw [runAllFrom_skip (hskips.trans hcontains), attempts_run]
    · rfl
    · rfl
  · rw [attempts_run (hskips.trans (Bool.eq_false_iff.2 hcontains)), attempts_run]
    · rfl
    · rfl

theorem name_of_mem_drop {timedOut : List String} {a : StepAttempt}
    (h : a ∈ (runAllFrom work ((installedSteps env).drop 3) allDone timedOut clock).attempts) :
    a.name ≠ "workers" := by
  have hname := List.mem_map_of_mem (f := StepAttempt.name) h
  rw [names_drop] at hname
  intro heq
  rw [heq] at hname
  split_ifs at hname <;> simp at hname

/-! ## The shutdown -/

/-- A step of that name was attempted and cut by its timer. -/
def ShutdownEnd.TimedOut (e : ShutdownEnd) (name : String) : Prop :=
  ∃ a ∈ e.attempts, a.name = name ∧ a.outcome = .timeout

/-- What a shutdown promises. -/
structure Orderly (env : EnvBounds) (e : ShutdownEnd) : Prop where
  inTime : e.cut = false ∧ e.exitedAt < env.SHUTDOWN_DEADLINE_MS
  attempted : ¬e.TimedOut "workers" →
    e.attempts.map StepAttempt.name = (installedSteps env).map ShutdownStep.name
  skipped : e.TimedOut "workers" → e.attempts.map StepAttempt.name =
    ((installedSteps env).map ShutdownStep.name).filter fun name => name ≠ "database-pool"
  code : e.code = 0 ↔ ∀ a ∈ e.attempts, a.outcome = .done

/-- Whatever the steps do. -/
theorem shutdown_orderly {shown : Rat → String} (h : validateEnvBounds shown env = [])
    (work : String → Settling) (stepsFirst : Bool) (flush : Settling) :
    Orderly env (runShutdown work stepsFirst flush (installedSteps env)
      env.SHUTDOWN_DEADLINE_MS) := by
  have hbudget : ((shutdownBudgetMs env : Nat) : Rat) ≤ env.SHUTDOWN_DEADLINE_MS :=
    Nat.cast_le.2 (budget_of_accepted h)
  have hend : (runAll work (installedSteps env)).endedAt < env.SHUTDOWN_DEADLINE_MS := by
    have hle := @endedAt_runAllFrom_le work (installedSteps env) true [] 0
    have hsum := sum_installedSteps env
    have hflush : (0 : Rat) < DEADLINE_FLUSH_TIMEOUT_MS := by norm_num [DEADLINE_FLUSH_TIMEOUT_MS]
    show (runAllFrom work (installedSteps env) true [] 0).endedAt < _
    linarith
  have hrun : runShutdown work stepsFirst flush (installedSteps env) env.SHUTDOWN_DEADLINE_MS =
      ⟨(runAll work (installedSteps env)).attempts,
        if (runAll work (installedSteps env)).allDone then 0 else 1,
        (runAll work (installedSteps env)).endedAt, false⟩ := if_pos (.inl hend)
  rw [hrun]
  obtain ⟨first, second, clock, allDone, timedOut, clock', hfirst, hsecond, hcontains, hattempts⟩ :=
    attempts_installedSteps env work
  have htimedOut : (∃ a ∈ (runAll work (installedSteps env)).attempts,
      a.name = "workers" ∧ a.outcome = .timeout) ↔ timedOut.contains "workers" = true := by
    rw [hcontains, hattempts]
    constructor
    · rintro ⟨a, ha, hname, houtcome⟩
      rcases List.mem_cons.1 ha with rfl | ha
      · exact absurd (hfirst.symm.trans hname) (by decide)
      rcases List.mem_cons.1 ha with rfl | ha
      · exact absurd (hsecond.symm.trans hname) (by decide)
      rcases List.mem_cons.1 ha with rfl | ha
      · exact houtcome
      · exact absurd hname (name_of_mem_drop ha)
    · exact fun houtcome => ⟨_, List.mem_cons_of_mem _ (List.mem_cons_of_mem _ List.mem_cons_self),
        rfl, houtcome⟩
  refine ⟨⟨rfl, hend⟩, fun hworkers => ?_, fun hworkers => ?_, ?_⟩
  · have hnone : ¬timedOut.contains "workers" = true := fun hin => hworkers (htimedOut.2 hin)
    show (runAll work (installedSteps env)).attempts.map StepAttempt.name = _
    rw [hattempts, List.map_cons, List.map_cons, List.map_cons, names_drop, if_neg hnone, hfirst,
      hsecond]
    rfl
  · show (runAll work (installedSteps env)).attempts.map StepAttempt.name = _
    rw [hattempts, List.map_cons, List.map_cons, List.map_cons, names_drop,
      if_pos (htimedOut.1 hworkers), hfirst, hsecond]
    rfl
  · show (if (runAll work (installedSteps env)).allDone = true then 0 else 1) = 0 ↔ _
    have hall := @allDone_runAllFrom work (installedSteps env) true [] 0
    rw [show runAllFrom work (installedSteps env) true [] 0 = runAll work (installedSteps env) from
      rfl] at hall
    split_ifs with hdone
    · exact ⟨fun _ => (hall.1 hdone).2, fun _ => rfl⟩
    · refine ⟨fun hcode => absurd hcode (by decide), fun hevery => ?_⟩
      exact absurd (hall.2 ⟨rfl, hevery⟩) hdone

/-- A deadline with nothing to spare. -/
def exactBudget : EnvBounds where
  SERVER_IDLE_TIMEOUT_SECONDS := 120
  SWEEP_DEADLINE_MS := 90000
  INTERNAL_FETCH_TIMEOUT_MS := 150000
  SHUTDOWN_GRACE_PERIOD_MS := 15000
  SHUTDOWN_STEP_TIMEOUT_MS := 2000
  SHUTDOWN_WORKERS_TIMEOUT_MS := 12000
  SHUTDOWN_DEADLINE_MS := 35500
  OUTBOX_LEASE_SECONDS := 120
  OUTBOX_HANDLER_BUDGET_SECONDS := 30
  EMAIL_LEASE_SECONDS := 120
  EMAIL_DEAD_RETRY_HOURS := 6
  EMAIL_DEAD_REPLAY_WINDOW_HOURS := 24
  WEBHOOK_LEASE_SECONDS := 120
  budget_positive := budget_positive_default

/-- Nothing ever settles. -/
theorem shutdown_orderly_stuck : Orderly exactBudget
    (runShutdown (fun _ => ⟨none, true⟩) false ⟨none, true⟩ (installedSteps exactBudget) 35500) :=
  @shutdown_orderly exactBudget (fun _ => "6") (by decide) _ _ _

end CleanStack.Env
