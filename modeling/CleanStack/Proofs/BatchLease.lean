import CleanStack.Env.Bounds
import CleanStack.Outbox.Batch
import Mathlib.Tactic.Linarith

/-!
# When a batch fits its lease

The claim is as large as full rounds of all the lanes allow, so a batch fits as
long as no lane ends before it has to. A lane that ends leaves its share to the
others, and a lane takes records as long as there are any: whether its lease
still covers one more is not asked, as the e-mail and webhook workers do. What
decides is how many rounds the records need with the lanes that are left, where a
record whose statement throws takes its lane with it.
-/

namespace CleanStack.Outbox

open CleanStack.Lib CleanStack.Env

section Seconds

variable {run : RecordRun} {budget : Rat}

theorem seconds_le (hbudget : 0 ≤ budget) : run.seconds budget ≤ budget := by
  cases run with
  | release throws => exact hbudget
  | settle handlers throws =>
      show (handlers.map fun handler => min handler budget).foldr max 0 ≤ budget
      induction handlers with
      | nil => exact hbudget
      | cons handler handlers ih => exact max_le (min_le_right _ _) ih

/-- A record whose handlers take the whole budget. -/
def slowest (budget : Rat) (throws : Bool) : RecordRun := .settle [budget] throws

theorem seconds_slowest (hbudget : 0 ≤ budget) (throws : Bool) :
    (slowest budget throws).seconds budget = budget := by
  show max (min budget budget) 0 = budget
  rw [min_self, max_eq_left hbudget]

end Seconds

/-- The rounds the lanes need fit in the lease. -/
def RoundsFit (options : OutboxRelayOptions) (throws : List Bool) : Prop :=
  roundsOf (min options.concurrency throws.length) throws * options.handlerBudgetSeconds +
    OUTBOX_SETTLE_MARGIN_SECONDS ≤ options.leaseSeconds

instance (options : OutboxRelayOptions) (throws : List Bool) :
    Decidable (RoundsFit options throws) :=
  inferInstanceAs (Decidable (_ ≤ _))

variable {options : OutboxRelayOptions}

theorem ends_task (runs : List RecordRun) (budget : Rat) :
    (runs.map (RecordRun.task budget)).map LaneTask.ends = runs.map RecordRun.throws := by
  rw [List.map_map]
  rfl

theorem nsmul_le_iff {n budget margin lease : Nat} :
    n • (budget : Rat) ≤ (lease : Rat) - margin ↔ n * budget + margin ≤ lease := by
  rw [nsmul_eq_mul, le_sub_iff_add_le]
  exact_mod_cast Iff.rfl

theorem fitsLease_of_roundsFit {runs : List RecordRun}
    (h : RoundsFit options (runs.map RecordRun.throws)) : FitsLease options runs := by
  have hbudget : (0 : Rat) ≤ options.handlerBudgetSeconds := Nat.cast_nonneg _
  intro span hspan
  have hlasts : ∀ task ∈ runs.map (RecordRun.task options.handlerBudgetSeconds),
      task.lasts ≤ options.handlerBudgetSeconds := by
    intro task htask
    obtain ⟨run, -, rfl⟩ := List.mem_map.1 htask
    exact seconds_le hbudget
  have hfinish := finish_le_roundsOf hbudget hlasts span hspan
  rw [ends_task] at hfinish
  rw [RoundsFit, List.length_map] at h
  exact le_trans hfinish (nsmul_le_iff.2 h)

/-- Handlers that take their whole budget show whether the rounds fit. -/
theorem roundsFit_of_fitsLease {throws : List Bool} (hconcurrency : 1 ≤ options.concurrency)
    (hlease : OUTBOX_SETTLE_MARGIN_SECONDS ≤ options.leaseSeconds)
    (h : FitsLease options (throws.map (slowest options.handlerBudgetSeconds))) :
    RoundsFit options throws := by
  have hbudget : (0 : Rat) ≤ options.handlerBudgetSeconds := Nat.cast_nonneg _
  by_cases hempty : throws = []
  · subst hempty
    simpa [RoundsFit, roundsOf, rounds] using hlease
  · have hpos := List.length_pos_iff.2 hempty
    have hthrows : (throws.map (slowest options.handlerBudgetSeconds)).map RecordRun.throws =
        throws := by
      rw [List.map_map]
      exact List.map_id throws
    have hlasts : ∀ task ∈ (throws.map (slowest options.handlerBudgetSeconds)).map
        (RecordRun.task options.handlerBudgetSeconds),
        task.lasts = options.handlerBudgetSeconds := by
      intro task htask
      obtain ⟨run, hrun, rfl⟩ := List.mem_map.1 htask
      obtain ⟨ends, -, rfl⟩ := List.mem_map.1 hrun
      exact seconds_slowest hbudget ends
    obtain ⟨span, hmem, hspan⟩ := exists_finish_roundsOf hbudget hlasts
      (lt_min hconcurrency hpos) (by simpa using hempty)
    rw [ends_task, hthrows] at hspan
    have hfits := h span (by simpa only [eachBounded, List.length_map] using hmem)
    rw [hspan] at hfits
    exact nsmul_le_iff.1 hfits

theorem roundsFit_of_no_throw {throws : List Bool} (hconcurrency : 1 ≤ options.concurrency)
    (hlease : options.handlerBudgetSeconds + OUTBOX_SETTLE_MARGIN_SECONDS ≤ options.leaseSeconds)
    (hclaimed : throws.length ≤ claimLimitOf options) (hthrows : ∀ t ∈ throws, t = false) :
    RoundsFit options throws := by
  obtain ⟨n, hn⟩ : ∃ n, n = max 1
      ((options.leaseSeconds - OUTBOX_SETTLE_MARGIN_SECONDS) / options.handlerBudgetSeconds) :=
    ⟨_, rfl⟩
  have hrounds : roundsOf (min options.concurrency throws.length) throws ≤ n := by
    refine roundsOf_le hthrows ?_
    have hlimit : throws.length ≤ n * options.concurrency := by
      have hle : throws.length ≤ n * max 1 options.concurrency := by
        rw [hn]
        exact le_trans hclaimed (Nat.min_le_right _ _)
      rwa [max_eq_right hconcurrency] at hle
    rcases Nat.le_total options.concurrency throws.length with hmany | hfew
    · rwa [min_eq_left hmany]
    · rw [min_eq_right hfew]
      have hone : 1 ≤ n := by
        rw [hn]
        exact Nat.le_max_left _ _
      exact Nat.le_mul_of_pos_left _ hone
  have hlast : n * options.handlerBudgetSeconds + OUTBOX_SETTLE_MARGIN_SECONDS ≤
      options.leaseSeconds := by
    rcases Nat.le_total ((options.leaseSeconds - OUTBOX_SETTLE_MARGIN_SECONDS) /
      options.handlerBudgetSeconds) 1 with hle | hge
    · rw [hn, max_eq_left hle, Nat.one_mul]
      exact hlease
    · rw [hn, max_eq_right hge]
      have := Nat.div_mul_le_self (options.leaseSeconds - OUTBOX_SETTLE_MARGIN_SECONDS)
        options.handlerBudgetSeconds
      omega
  have hmul := Nat.mul_le_mul_right options.handlerBudgetSeconds hrounds
  unfold RoundsFit
  omega

/-- Whatever the handlers take, a claimed batch fits its lease exactly when the
rounds its lanes need do; and these do when no lane ends early. -/
theorem fitsLease_iff_roundsFit {shown : Rat → String} {env : EnvBounds}
    (haccepted : validateEnvBounds shown env = [])
    (hlease : options.leaseSeconds = env.OUTBOX_LEASE_SECONDS)
    (hbudget : options.handlerBudgetSeconds = env.OUTBOX_HANDLER_BUDGET_SECONDS)
    (hconcurrency : 1 ≤ options.concurrency) {throws : List Bool}
    (hclaimed : throws.length ≤ claimLimitOf options) :
    ((∀ runs : List RecordRun, runs.map RecordRun.throws = throws → FitsLease options runs) ↔
      RoundsFit options throws) ∧
    ((∀ t ∈ throws, t = false) → RoundsFit options throws) := by
  have hcover := (leasesCover_of_accepted haccepted).outbox
  rw [← hlease, ← hbudget] at hcover
  refine ⟨⟨fun h => ?_, fun h runs hruns => ?_⟩, fun hthrows => ?_⟩
  · refine roundsFit_of_fitsLease hconcurrency (by omega) (h _ ?_)
    rw [List.map_map]
    exact List.map_id throws
  · subst hruns
    exact fitsLease_of_roundsFit h
  · exact roundsFit_of_no_throw hconcurrency hcover hclaimed hthrows

/-! ## Lanes that end -/

def defaultBounds : EnvBounds where
  SERVER_IDLE_TIMEOUT_SECONDS := 120
  SWEEP_DEADLINE_MS := 90000
  INTERNAL_FETCH_TIMEOUT_MS := 150000
  SHUTDOWN_GRACE_PERIOD_MS := 15000
  SHUTDOWN_STEP_TIMEOUT_MS := 2000
  SHUTDOWN_WORKERS_TIMEOUT_MS := 12000
  SHUTDOWN_DEADLINE_MS := 36000
  OUTBOX_LEASE_SECONDS := 120
  OUTBOX_HANDLER_BUDGET_SECONDS := 30
  EMAIL_LEASE_SECONDS := 120
  EMAIL_DEAD_RETRY_HOURS := 6
  EMAIL_DEAD_REPLAY_WINDOW_HOURS := 24
  WEBHOOK_LEASE_SECONDS := 330
  budget_positive := budget_positive_default

theorem defaultBounds_accepted : validateEnvBounds (fun _ => "6") defaultBounds = [] := by
  decide

def defaultRelay : OutboxRelayOptions where
  eventTypes := ["user.created"]
  batchSize := 50
  maxAttempts := 10
  leaseSeconds := 120
  deadRetrySeconds := 21600
  concurrency := 4
  handlerBudgetSeconds := 30

/-- Twelve records are claimed, and the first three cannot be settled. -/
def threeThrow : List Bool := [true, true, true] ++ List.replicate 9 false

theorem fitsLease_iff_roundsFit_default :
    ((∀ runs : List RecordRun, runs.map RecordRun.throws = threeThrow →
        FitsLease defaultRelay runs) ↔ RoundsFit defaultRelay threeThrow) ∧
    ((∀ t ∈ threeThrow, t = false) → RoundsFit defaultRelay threeThrow) :=
  fitsLease_iff_roundsFit defaultBounds_accepted rfl rfl (by decide) (by decide)

/-- One lane is left with nine records. -/
theorem batch_outlives_lease : ¬ ∀ (shown : Rat → String) (env : EnvBounds)
    (options : OutboxRelayOptions) (runs : List RecordRun), validateEnvBounds shown env = [] →
    options.leaseSeconds = env.OUTBOX_LEASE_SECONDS →
    options.handlerBudgetSeconds = env.OUTBOX_HANDLER_BUDGET_SECONDS →
    1 ≤ options.concurrency → 1 ≤ options.batchSize → runs.length ≤ claimLimitOf options →
    FitsLease options runs := by
  intro h
  have hfits := h _ defaultBounds defaultRelay (threeThrow.map (slowest 30))
    defaultBounds_accepted rfl rfl (by decide) (by decide) (by decide)
  have hrounds : RoundsFit defaultRelay threeThrow :=
    roundsFit_of_fitsLease (by decide) (by decide) hfits
  exact absurd hrounds (by decide)

end CleanStack.Outbox
