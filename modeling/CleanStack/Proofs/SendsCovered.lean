import CleanStack.Webhooks.DeliveryWorker

/-!
# What a lease covers

The countdown begins before the claim, so the lease the database has given ends
no earlier than the worker thinks. A unit after the first is started with its
timeout and the margin left. The first is started unasked, and has what the claim
and the release of incomplete batches have left it: the bounds of the environment
make the lease long enough for a unit and its margin when it is taken, not when
the unit is up. So these have to fit the margin too.

A unit is given back when it is not started, unless one before it throws and
nobody catches it, as in the e-mail worker.
-/

namespace CleanStack.Outbox

open CleanStack.Env

/-- A unit that keeps to its timeouts, with statements and rendering that fit the
margin. -/
structure UnitRun.Fits (budget : LeaseBudget) (run : UnitRun) : Prop where
  before_nonneg : 0 ≤ run.before
  request_nonneg : 0 ≤ run.request
  after_nonneg : 0 ≤ run.after
  request_le : run.request ≤ budget.unitSeconds
  statements_le : run.before + run.after ≤ budget.marginSeconds

/-- When the answer to the request is there, or its timeout has passed. -/
def Started.answered {α : Type} (s : Started α) : Rat := s.start + s.run.before + s.run.request

/-- What holds of a batch whose lease was taken at `taken`. -/
structure Covered {α : Type} (leaseSeconds : Nat) (budget : LeaseBudget) (taken : Rat)
    (drained : Drained α) : Prop where
  later : ∀ s ∈ drained.started.tail,
    (budget.unitSeconds + budget.marginSeconds : Rat) ≤ taken + leaseSeconds - s.start
  first : ∀ s ∈ drained.started.head?,
    (budget.unitSeconds + budget.marginSeconds : Rat) - (s.start - taken) ≤
      taken + leaseSeconds - s.start
  answeredLater : ∀ s ∈ drained.started.tail, s.answered ≤ taken + leaseSeconds
  answeredFirst : ∀ s ∈ drained.started.head?,
    s.start - taken + s.run.before ≤ budget.marginSeconds → s.answered ≤ taken + leaseSeconds

section Units

variable {α : Type} {leaseSeconds : Nat} {budget : LeaseBudget} {clock taken now : Rat}
  {catches : Bool} {units : List (α × UnitRun)}

/-- The first unit that is started is the one that is up, and the others are
started by the rest of the loop. -/
theorem started_cases {lease : LeaseCountdown} {first : Bool} {s : Started α}
    {later : List (Started α)}
    (h : (drainUnits catches lease clock first now units).started = s :: later) :
    ∃ rest, units = (s.unit, s.run) :: rest ∧ s.start = now ∧
      (first = false → lease.coversNextUnit (clockAfter clock now) = true) ∧
      (later = [] ∨ later =
        (drainUnits catches lease clock false (now + s.run.seconds) rest).started) := by
  cases units with
  | nil => cases h
  | cons unit rest =>
      obtain ⟨unit, run⟩ := unit
      rw [drainUnits] at h
      split at h
      · cases h
      next hgo =>
      have hcovers : first = false → lease.coversNextUnit (clockAfter clock now) = true := by
        rintro rfl
        simp only [Bool.not_false, Bool.true_and, Bool.or_eq_true, not_or, Bool.not_eq_true,
          Bool.not_eq_false'] at hgo
        exact hgo.2
      split at h
      · obtain ⟨rfl, rfl⟩ := List.cons.inj h
        exact ⟨rest, rfl, rfl, hcovers, .inl rfl⟩
      · obtain ⟨rfl, rfl⟩ := List.cons.inj h
        exact ⟨rest, rfl, rfl, hcovers, .inr rfl⟩

/-- In the loop after index 0 every unit is asked for. -/
theorem started_covered : ∀ {units : List (α × UnitRun)} {now : Rat},
    ∀ s ∈ (drainUnits catches (leaseCountdown leaseSeconds budget clock) clock false now
      units).started,
    (budget.unitSeconds + budget.marginSeconds : Rat) ≤ leaseSeconds - s.start ∧
      s.run ∈ units.map Prod.snd
  | units, now, s, hs => by
      cases h : (drainUnits catches (leaseCountdown leaseSeconds budget clock) clock false now
          units).started with
      | nil =>
          rw [h] at hs
          cases hs
      | cons head later =>
          obtain ⟨rest, rfl, hstart, hcovers, htail⟩ := started_cases h
          rw [h] at hs
          rcases List.mem_cons.1 hs with rfl | hlater
          · rw [hstart]
            exact ⟨coversNextUnit_iff.1 (hcovers rfl), List.mem_cons_self⟩
          · rcases htail with rfl | rfl
            · cases hlater
            · obtain ⟨hleft, hmem⟩ := started_covered s hlater
              exact ⟨hleft, List.mem_cons_of_mem _ hmem⟩
  termination_by units => units.length

theorem covered_drainUnits (htaken : 0 ≤ taken)
    (hlease : budget.unitSeconds + budget.marginSeconds ≤ leaseSeconds)
    (hfits : ∀ unit ∈ units, unit.2.Fits budget) :
    Covered leaseSeconds budget taken
      (drainUnits catches (leaseCountdown leaseSeconds budget clock) clock true now units) := by
  have hlong : (budget.unitSeconds + budget.marginSeconds : Rat) ≤ leaseSeconds := by
    exact_mod_cast hlease
  have htail : ∀ s ∈ (drainUnits catches (leaseCountdown leaseSeconds budget clock) clock true now
      units).started.tail, (budget.unitSeconds + budget.marginSeconds : Rat) ≤
        leaseSeconds - s.start ∧ s.run.Fits budget := by
    intro s hs
    cases h : (drainUnits catches (leaseCountdown leaseSeconds budget clock) clock true now
        units).started with
    | nil =>
        rw [h] at hs
        cases hs
    | cons head later =>
        obtain ⟨rest, rfl, -, -, hlater⟩ := started_cases h
        rw [h] at hs
        rcases hlater with rfl | rfl
        · cases hs
        · obtain ⟨hleft, hmem⟩ := started_covered s hs
          obtain ⟨unit, hunit, hrun⟩ := List.mem_map.1 hmem
          exact ⟨hleft, hrun ▸ hfits unit (List.mem_cons_of_mem _ hunit)⟩
  refine ⟨fun s hs => ?_, fun s _ => ?_, fun s hs => ?_, fun s hs hbefore => ?_⟩
  · have hleft := (htail s hs).1
    linarith
  · linarith
  · obtain ⟨hleft, hrun⟩ := htail s hs
    have hrequest := hrun.request_le
    have hstatements := hrun.statements_le
    have hafter := hrun.after_nonneg
    simp only [Started.answered]
    linarith
  · cases h : (drainUnits catches (leaseCountdown leaseSeconds budget clock) clock true now
        units).started with
    | nil =>
        rw [h] at hs
        cases hs
    | cons head later =>
        obtain ⟨rest, rfl, -, -, -⟩ := started_cases h
        rw [h] at hs
        obtain rfl : head = s := Option.some.inj hs
        have hrequest := (hfits (head.unit, head.run) List.mem_cons_self).request_le
        simp only [Started.answered] at hrequest ⊢
        linarith

/-- A unit that is let through and comes to its end in time. -/
structure UnitRun.Smooth (budget : LeaseBudget) (run : UnitRun) : Prop where
  running : run.stopping = false
  quiet : run.throws = false
  seconds_le : run.seconds ≤ budget.unitSeconds

theorem started_of_smooth : ∀ {units : List (α × UnitRun)} {first : Bool} {now : Rat},
    (∀ unit ∈ units, unit.2.Smooth budget) →
    now + units.length * budget.unitSeconds + budget.marginSeconds ≤ leaseSeconds →
    (drainUnits catches (leaseCountdown leaseSeconds budget clock) clock first now
      units).started.map Started.unit = units.map Prod.fst
  | [], _, _, _, _ => rfl
  | (unit, run) :: rest, first, now, hsmooth, hfit => by
      obtain ⟨hrunning, hquiet, hseconds⟩ : run.Smooth budget :=
        hsmooth (unit, run) List.mem_cons_self
      rw [List.length_cons, Nat.cast_succ] at hfit
      have hrest : (0 : Rat) ≤ rest.length * budget.unitSeconds := by positivity
      have hcovers : (leaseCountdown leaseSeconds budget clock).coversNextUnit
          (clockAfter clock now) = true := coversNextUnit_iff.2 (by linarith)
      have hlater : (drainUnits catches (leaseCountdown leaseSeconds budget clock) clock false
          (now + run.seconds) rest).started.map Started.unit = rest.map Prod.fst :=
        started_of_smooth (fun unit hunit => hsmooth unit (List.mem_cons_of_mem _ hunit))
          (by linarith)
      rw [drainUnits, if_neg (by simp [hrunning, hcovers]), if_neg (by simp [hquiet])]
      exact congrArg (List.cons unit) hlater

/-- So many units as a claim is limited to are all started, when each keeps to its
time and the countdown has just begun. -/
theorem unitsWithinLease_started (hsmooth : ∀ unit ∈ units, unit.2.Smooth budget)
    (hlease : budget.unitSeconds + budget.marginSeconds ≤ leaseSeconds)
    (hlimit : units.length ≤ unitsWithinLease leaseSeconds budget) (first : Bool) :
    (drainUnits catches (leaseCountdown leaseSeconds budget clock) clock first 0
      units).started.map Started.unit = units.map Prod.fst := by
  refine started_of_smooth hsmooth ?_
  have hfit : units.length * budget.unitSeconds + budget.marginSeconds ≤ leaseSeconds := by
    rw [unitsWithinLease] at hlimit
    rcases le_max_iff.1 hlimit with hone | hmany
    · have := Nat.mul_le_mul_right budget.unitSeconds hone
      omega
    · have hmul := Nat.mul_le_mul_right budget.unitSeconds hmany
      have hdiv := Nat.div_mul_le_self (leaseSeconds - budget.marginSeconds) budget.unitSeconds
      omega
  rw [zero_add]
  exact_mod_cast hfit

/-- Every unit is started or given back, unless one throws and is not caught. -/
theorem started_or_released {lease : LeaseCountdown} : ∀ {units : List (α × UnitRun)}
    {first : Bool} {now : Rat},
    catches = true ∨ (∀ unit ∈ units, unit.2.throws = false) →
    (drainUnits catches lease clock first now units).started.map Started.unit ++
      (drainUnits catches lease clock first now units).released = units.map Prod.fst
  | [], _, _, _ => rfl
  | (unit, run) :: rest, first, now, hcaught => by
      have hnot : (run.throws && !catches) = false := by
        rcases hcaught with rfl | hquiet
        · simp
        · rw [hquiet (unit, run) List.mem_cons_self]
          rfl
      have hrest : (drainUnits catches lease clock false (now + run.seconds) rest).started.map
          Started.unit ++ (drainUnits catches lease clock false (now + run.seconds) rest).released =
            rest.map Prod.fst := started_or_released
        (hcaught.imp_right fun hquiet u hu => hquiet u (List.mem_cons_of_mem _ hu))
      rw [drainUnits]
      split
      · rfl
      · simp only [hnot]
        simpa using hrest

theorem map_fst_zip {runs : List UnitRun} {batch : List α} (h : runs.length = batch.length) :
    (batch.zip runs).map Prod.fst = batch :=
  List.map_fst_zip (Nat.le_of_eq h.symm)

end Units

/-- Every unit but the first is started with its timeout and the margin left of
the lease, which was taken at `taken`, and answered before the lease ends; so is
the first if the time since the lease was taken and its statements before the
request fit the margin. What is not started is given back: always by the webhook
worker, and by the e-mail worker if no chunk throws. -/
theorem sends_covered {shown : Rat → String} {env : EnvBounds}
    (haccepted : validateEnvBounds shown env = []) :
    (∀ (options : Email.EmailDeliveryOptions) (clock : Rat)
      (rows : List Email.EmailMessageRecord) (taken answered releaseIncomplete : Rat)
      (runs : List UnitRun), options.leaseSeconds = env.EMAIL_LEASE_SECONDS → 0 ≤ taken →
      runs.length = (Email.drainOf options rows).chunks.length →
      (∀ run ∈ runs, run.Fits Email.CHUNK_BUDGET) →
      let drained := Email.drainOnce options clock rows answered releaseIncomplete runs
      Covered env.EMAIL_LEASE_SECONDS Email.CHUNK_BUDGET taken drained ∧
        ((∀ run ∈ runs, run.throws = false) →
          drained.started.map Started.unit ++ drained.released =
            (Email.drainOf options rows).chunks)) ∧
    ∀ (clock : Rat) (batch : List Webhooks.DeliveryRow) (taken answered : Rat)
      (runs : List UnitRun), 0 ≤ taken → runs.length = batch.length →
      (∀ run ∈ runs, run.Fits Webhooks.DELIVERY_BUDGET) →
      let drained := Webhooks.drainBatch env.WEBHOOK_LEASE_SECONDS clock batch answered runs
      Covered env.WEBHOOK_LEASE_SECONDS Webhooks.DELIVERY_BUDGET taken drained ∧
        drained.started.map Started.unit ++ drained.released = batch := by
  have hcover := leasesCover_of_accepted haccepted
  constructor
  · intro options clock rows taken answered releaseIncomplete runs hlease htaken hlen hfits
    have hemail := hcover.email
    rw [← hlease] at hemail ⊢
    refine ⟨covered_drainUnits htaken hemail fun unit hunit =>
      hfits unit.2 (List.of_mem_zip hunit).2, fun hquiet => ?_⟩
    exact (started_or_released (.inr fun unit hunit =>
      hquiet unit.2 (List.of_mem_zip hunit).2)).trans (map_fst_zip hlen)
  · intro clock batch taken answered runs htaken hlen hfits
    refine ⟨covered_drainUnits htaken hcover.webhook fun unit hunit =>
      hfits unit.2 (List.of_mem_zip hunit).2, ?_⟩
    exact (started_or_released (.inl rfl)).trans (map_fst_zip hlen)

/-! ## The shortest lease -/

/-- A lease for one delivery. -/
def oneDelivery : EnvBounds where
  SERVER_IDLE_TIMEOUT_SECONDS := 120
  SWEEP_DEADLINE_MS := 90000
  INTERNAL_FETCH_TIMEOUT_MS := 150000
  SHUTDOWN_GRACE_PERIOD_MS := 15000
  SHUTDOWN_STEP_TIMEOUT_MS := 2000
  SHUTDOWN_WORKERS_TIMEOUT_MS := 12000
  SHUTDOWN_DEADLINE_MS := 36000
  OUTBOX_LEASE_SECONDS := 120
  OUTBOX_HANDLER_BUDGET_SECONDS := 30
  EMAIL_LEASE_SECONDS := 45
  EMAIL_DEAD_RETRY_HOURS := 6
  EMAIL_DEAD_REPLAY_WINDOW_HOURS := 24
  WEBHOOK_LEASE_SECONDS := 65
  budget_positive := budget_positive_default

theorem oneDelivery_accepted : validateEnvBounds (fun _ => "6") oneDelivery = [] := by
  decide

def quickRun : UnitRun := ⟨false, 0, 1, 0, false⟩

theorem quickRun_fits (budget : LeaseBudget) (h : 1 ≤ budget.unitSeconds) :
    quickRun.Fits budget := by
  refine ⟨le_refl 0, zero_le_one, le_refl 0, ?_, ?_⟩
  · show (1 : Rat) ≤ budget.unitSeconds
    exact_mod_cast h
  · show (0 : Rat) + 0 ≤ budget.marginSeconds
    rw [add_zero]
    exact Nat.cast_nonneg _

theorem sends_covered_one_delivery :
    Covered 65 Webhooks.DELIVERY_BUDGET 0
      (Webhooks.drainBatch 65 0 [Webhooks.paidDelivery] 1 [quickRun]) ∧
    (Webhooks.drainBatch 65 0 [Webhooks.paidDelivery] 1 [quickRun]).started.map Started.unit ++
      (Webhooks.drainBatch 65 0 [Webhooks.paidDelivery] 1 [quickRun]).released =
        [Webhooks.paidDelivery] := by
  refine (sends_covered oneDelivery_accepted).2 0 [Webhooks.paidDelivery] 0 1 [quickRun]
    (le_refl 0) rfl fun run hrun => ?_
  obtain rfl := List.mem_singleton.1 hrun
  exact quickRun_fits _ (by decide)

/-- The claim of a batch is answered a second after its lease was taken. -/
theorem first_delivery_uncovered : ¬ ∀ (shown : Rat → String) (env : EnvBounds) (clock : Rat)
    (batch : List Webhooks.DeliveryRow) (taken answered : Rat) (runs : List UnitRun),
    validateEnvBounds shown env = [] → 0 ≤ taken → taken ≤ answered →
    runs.length = batch.length → (∀ run ∈ runs, run.Fits Webhooks.DELIVERY_BUDGET) →
    ∀ s ∈ (Webhooks.drainBatch env.WEBHOOK_LEASE_SECONDS clock batch answered runs).started,
      (Webhooks.DELIVERY_BUDGET.unitSeconds + Webhooks.DELIVERY_BUDGET.marginSeconds : Rat) ≤
        taken + env.WEBHOOK_LEASE_SECONDS - s.start := by
  intro h
  have hfits : ∀ run ∈ [quickRun], run.Fits Webhooks.DELIVERY_BUDGET := by
    intro run hrun
    obtain rfl := List.mem_singleton.1 hrun
    exact quickRun_fits _ (by decide)
  have hcovered := h _ oneDelivery 0 [Webhooks.paidDelivery] 0 1 [quickRun] oneDelivery_accepted
    (le_refl 0) zero_le_one rfl hfits ⟨Webhooks.paidDelivery, 1, quickRun⟩ List.mem_cons_self
  norm_num [oneDelivery, Webhooks.DELIVERY_BUDGET, WEBHOOK_DNS_TIMEOUT_SECONDS,
    WEBHOOK_FETCH_TIMEOUT_SECONDS, WEBHOOK_SETTLE_MARGIN_SECONDS] at hcovered

end CleanStack.Outbox
