import CleanStack.Email.DeliveryWorker
import CleanStack.Outbox.Relay

/-!
# Bounds between variables of the environment

The schema of the environment checks every variable alone; `validateEnvBounds`
then compares them, and an issue stops the boot. Durations the schema wants to be
integers are natural numbers here.
-/

namespace CleanStack.Env

open CleanStack.Email CleanStack.Outbox

def EMAIL_IDEMPOTENCY_KEY_TTL_HOURS : Nat := 24
def WEBHOOK_DNS_TIMEOUT_SECONDS : Nat := 5
def WEBHOOK_FETCH_TIMEOUT_SECONDS : Nat := 30
def WEBHOOK_SETTLE_MARGIN_SECONDS : Nat := 30

def GRACE_MARGIN_MS : Nat := 1000
def TELEMETRY_FLUSH_TIMEOUT_MS : Nat := 2000
def TELEMETRY_FLUSH_MARGIN_MS : Nat := 500
def DEADLINE_FLUSH_TIMEOUT_MS : Nat := 1000

structure EnvBounds where
  SERVER_IDLE_TIMEOUT_SECONDS : Nat
  SWEEP_DEADLINE_MS : Nat
  INTERNAL_FETCH_TIMEOUT_MS : Nat
  SHUTDOWN_GRACE_PERIOD_MS : Nat
  SHUTDOWN_STEP_TIMEOUT_MS : Nat
  SHUTDOWN_WORKERS_TIMEOUT_MS : Nat
  SHUTDOWN_DEADLINE_MS : Nat
  OUTBOX_LEASE_SECONDS : Nat
  OUTBOX_HANDLER_BUDGET_SECONDS : Nat
  EMAIL_LEASE_SECONDS : Nat
  EMAIL_DEAD_RETRY_HOURS : Rat
  EMAIL_DEAD_REPLAY_WINDOW_HOURS : Nat
  WEBHOOK_LEASE_SECONDS : Nat
  /-- `z.coerce.number().int().positive()`. -/
  budget_positive : 0 < OUTBOX_HANDLER_BUDGET_SECONDS

/-- The default budget. -/
theorem budget_positive_default : 0 < 30 := by decide

structure Issue where
  path : List String
  message : String
  deriving DecidableEq, Repr

def worstCaseShutdownMs (graceMs stepMs workersMs : Nat) : Nat :=
  let httpAndPoolMs := 2 * stepMs
  let telemetryMs := TELEMETRY_FLUSH_TIMEOUT_MS + TELEMETRY_FLUSH_MARGIN_MS
  graceMs + GRACE_MARGIN_MS + httpAndPoolMs + workersMs + telemetryMs + DEADLINE_FLUSH_TIMEOUT_MS

/-- `if (broken) ctx.addIssue(…)`. -/
def issueIf (broken : Bool) (field message : String) : List Issue :=
  if broken then [⟨[field], message⟩] else []

section Checks

variable (shown : Rat → String) (value : EnvBounds)

def idleMs : Nat := value.SERVER_IDLE_TIMEOUT_SECONDS * 1000

def shownIdle : String :=
  "SERVER_IDLE_TIMEOUT_SECONDS (" ++ toString value.SERVER_IDLE_TIMEOUT_SECONDS ++ "s = " ++
    toString (idleMs value) ++ "ms)"

def sweepDeadlineIssue : List Issue :=
  issueIf (idleMs value ≤ value.SWEEP_DEADLINE_MS) "SWEEP_DEADLINE_MS"
    ("SWEEP_DEADLINE_MS (" ++ toString value.SWEEP_DEADLINE_MS ++ ") must be below " ++
      shownIdle value ++ ", or the socket closes before the sweep can answer.")

def internalFetchIssue : List Issue :=
  issueIf (value.INTERNAL_FETCH_TIMEOUT_MS ≤ idleMs value) "INTERNAL_FETCH_TIMEOUT_MS"
    ("INTERNAL_FETCH_TIMEOUT_MS (" ++ toString value.INTERNAL_FETCH_TIMEOUT_MS ++
      ") must exceed " ++ shownIdle value ++
      ", or the client gives up before the server answers.")

def shutdownBudgetMs : Nat :=
  worstCaseShutdownMs value.SHUTDOWN_GRACE_PERIOD_MS value.SHUTDOWN_STEP_TIMEOUT_MS
    value.SHUTDOWN_WORKERS_TIMEOUT_MS

def shutdownDeadlineIssue : List Issue :=
  issueIf (value.SHUTDOWN_DEADLINE_MS < shutdownBudgetMs value) "SHUTDOWN_DEADLINE_MS"
    ("SHUTDOWN_DEADLINE_MS (" ++ toString value.SHUTDOWN_DEADLINE_MS ++
      ") must cover the worst-case shutdown (" ++ toString (shutdownBudgetMs value) ++
      "ms): SHUTDOWN_GRACE_PERIOD_MS + " ++ toString GRACE_MARGIN_MS ++
      ", 2 x SHUTDOWN_STEP_TIMEOUT_MS (http, database pool), SHUTDOWN_WORKERS_TIMEOUT_MS, the " ++
      toString (TELEMETRY_FLUSH_TIMEOUT_MS + TELEMETRY_FLUSH_MARGIN_MS) ++
      "ms telemetry flush and the " ++ toString DEADLINE_FLUSH_TIMEOUT_MS ++
      "ms deadline flush, or a slow but healthy shutdown is cut by the deadline and exits 1.")

def leaseFloor : Nat := value.OUTBOX_HANDLER_BUDGET_SECONDS + OUTBOX_SETTLE_MARGIN_SECONDS

def outboxLeaseIssue : List Issue :=
  issueIf (value.OUTBOX_LEASE_SECONDS < leaseFloor value) "OUTBOX_LEASE_SECONDS"
    ("OUTBOX_LEASE_SECONDS (" ++ toString value.OUTBOX_LEASE_SECONDS ++
      ") must be at least OUTBOX_HANDLER_BUDGET_SECONDS (" ++
      toString value.OUTBOX_HANDLER_BUDGET_SECONDS ++ ") + the " ++
      toString OUTBOX_SETTLE_MARGIN_SECONDS ++ "s claim and settle margin (" ++
      toString (leaseFloor value) ++
      "), or a handler still within its budget outlives the lease and another relay claims the " ++
      "same event.")

def emailLeaseFloor : Nat := EMAIL_SEND_TIMEOUT_SECONDS + EMAIL_SETTLE_MARGIN_SECONDS

def emailLeaseIssue : List Issue :=
  issueIf (value.EMAIL_LEASE_SECONDS < emailLeaseFloor) "EMAIL_LEASE_SECONDS"
    ("EMAIL_LEASE_SECONDS (" ++ toString value.EMAIL_LEASE_SECONDS ++ ") must be at least the " ++
      toString EMAIL_SEND_TIMEOUT_SECONDS ++ "s send timeout + the " ++
      toString EMAIL_SETTLE_MARGIN_SECONDS ++ "s claim and settle margin (" ++
      toString emailLeaseFloor ++
      "), or a batch still waiting on the provider outlives the lease and another worker sends " ++
      "the same emails again.")

def deadReplayFloorIssue : List Issue :=
  issueIf ((value.EMAIL_DEAD_REPLAY_WINDOW_HOURS : Rat) ≤ value.EMAIL_DEAD_RETRY_HOURS)
    "EMAIL_DEAD_REPLAY_WINDOW_HOURS"
    ("EMAIL_DEAD_REPLAY_WINDOW_HOURS (" ++ toString value.EMAIL_DEAD_REPLAY_WINDOW_HOURS ++
      ") must exceed EMAIL_DEAD_RETRY_HOURS (" ++ shown value.EMAIL_DEAD_RETRY_HOURS ++
      "), or a dead email leaves its replay window before its first replay is due and is never " ++
      "retried.")

def deadReplayCeilingIssue : List Issue :=
  issueIf (EMAIL_IDEMPOTENCY_KEY_TTL_HOURS < value.EMAIL_DEAD_REPLAY_WINDOW_HOURS)
    "EMAIL_DEAD_REPLAY_WINDOW_HOURS"
    ("EMAIL_DEAD_REPLAY_WINDOW_HOURS (" ++ toString value.EMAIL_DEAD_REPLAY_WINDOW_HOURS ++
      ") must be at most " ++ toString EMAIL_IDEMPOTENCY_KEY_TTL_HOURS ++
      ": the provider keeps an idempotency key for " ++ toString EMAIL_IDEMPOTENCY_KEY_TTL_HOURS ++
      " hours, so a later replay of a batch it already accepted would send every email twice.")

def webhookLeaseFloor : Nat :=
  WEBHOOK_DNS_TIMEOUT_SECONDS + WEBHOOK_FETCH_TIMEOUT_SECONDS + WEBHOOK_SETTLE_MARGIN_SECONDS

def webhookLeaseIssue : List Issue :=
  issueIf (value.WEBHOOK_LEASE_SECONDS < webhookLeaseFloor) "WEBHOOK_LEASE_SECONDS"
    ("WEBHOOK_LEASE_SECONDS (" ++ toString value.WEBHOOK_LEASE_SECONDS ++
      ") must be at least the " ++ toString WEBHOOK_DNS_TIMEOUT_SECONDS ++
      "s lookup timeout + the " ++ toString WEBHOOK_FETCH_TIMEOUT_SECONDS ++
      "s delivery timeout + the " ++ toString WEBHOOK_SETTLE_MARGIN_SECONDS ++
      "s claim and settle margin (" ++ toString webhookLeaseFloor ++
      "), or a delivery still waiting on its endpoint outlives the lease and another worker sends " ++
      "it again.")

/-- `shown` prints a number that need not be an integer. -/
def validateEnvBounds : List Issue :=
  sweepDeadlineIssue value ++ internalFetchIssue value ++ shutdownDeadlineIssue value ++
    outboxLeaseIssue value ++ emailLeaseIssue value ++ deadReplayFloorIssue shown value ++
    deadReplayCeilingIssue value ++ webhookLeaseIssue value

end Checks

theorem issueIf_eq_nil {broken : Prop} [Decidable broken] {field message : String} :
    issueIf broken field message = [] ↔ ¬ broken := by
  by_cases h : broken <;> simp [issueIf, h]

/-- What the workers rely on. -/
structure LeasesCover (value : EnvBounds) : Prop where
  outbox : value.OUTBOX_HANDLER_BUDGET_SECONDS + OUTBOX_SETTLE_MARGIN_SECONDS ≤
    value.OUTBOX_LEASE_SECONDS
  email : EMAIL_SEND_TIMEOUT_SECONDS + EMAIL_SETTLE_MARGIN_SECONDS ≤ value.EMAIL_LEASE_SECONDS
  webhook : WEBHOOK_DNS_TIMEOUT_SECONDS + WEBHOOK_FETCH_TIMEOUT_SECONDS +
    WEBHOOK_SETTLE_MARGIN_SECONDS ≤ value.WEBHOOK_LEASE_SECONDS

theorem leasesCover_of_accepted {shown : Rat → String} {value : EnvBounds}
    (h : validateEnvBounds shown value = []) : LeasesCover value := by
  simp only [validateEnvBounds, List.append_eq_nil_iff] at h
  obtain ⟨⟨⟨⟨⟨-, houtbox⟩, hemail⟩, -⟩, -⟩, hwebhook⟩ := h
  exact ⟨Nat.not_lt.1 (issueIf_eq_nil.1 houtbox), Nat.not_lt.1 (issueIf_eq_nil.1 hemail),
    Nat.not_lt.1 (issueIf_eq_nil.1 hwebhook)⟩

end CleanStack.Env
