import CleanStack.Proofs.Settlements

/-!
# Disabling an endpoint

A worker that pushes the counter of an endpoint past the threshold disables it
and emits an event, whether the endpoint is enabled or not. A delivery that was
looked up before the endpoint was disabled and is settled after is the way to
a second event.
-/

namespace CleanStack.Webhooks

open CleanStack.Lib CleanStack.Drizzle CleanStack.Outbox

def isDisabling (endpointId : String) : WorkerEvent → Bool
  | .disabled event => event.endpointId = endpointId && event.reason = "delivery_failures"
  | .exhausted _ => false

/-- How often the disabling of an endpoint is announced. -/
def disablings (db : WebhookDb) (endpointId : String) : Nat :=
  db.outbox.countP (isDisabling endpointId)

def enabledOf (t : EndpointTable) (endpointId : String) : Option Bool :=
  (t.find? endpointId).map fun r => r.enabled

section Announcing

variable {κ : Type}

/-- A worker disables an endpoint that was enabled. -/
def TurnsOff (endpointId : String) (s : WorkerState κ) (a : WorkerAction κ)
    (s' : WorkerState κ) : Prop :=
  isSettle a = true ∧ enabledOf s.db.endpoints endpointId = some true ∧
    enabledOf s'.db.endpoints endpointId = some false

instance (endpointId : String) (s : WorkerState κ) (a : WorkerAction κ) (s' : WorkerState κ) :
    Decidable (TurnsOff endpointId s a s') :=
  inferInstanceAs (Decidable (_ ∧ _ ∧ _))

/-- In one step, the endpoint is announced as disabled if a worker disables it,
once, and not otherwise. -/
def AnnouncesDisabling (endpointId : String) (s : WorkerState κ) (a : WorkerAction κ)
    (s' : WorkerState κ) : Prop :=
  disablings s'.db endpointId =
    disablings s.db endpointId + if TurnsOff endpointId s a s' then 1 else 0

def turnsOff (workers : Nat → WebhookWorker κ) (endpointId : String) :
    WorkerState κ → List (WorkerAction κ) → Nat
  | _, [] => 0
  | s, a :: as =>
      match workerStep workers s a with
      | some s' =>
          (if TurnsOff endpointId s a s' then 1 else 0) + turnsOff workers endpointId s' as
      | none => 0

/-- No first death is settled past the threshold of an endpoint that has been
disabled since the delivery was looked up. -/
def Timely (workers : Nat → WebhookWorker κ) (endpointId : String) (s : WorkerState κ) :
    WorkerAction κ → Prop
  | .settle j processNow random => ∀ i record processing outcome r,
      s.jobs[j]? = some ⟨i, record, .processed processing outcome⟩ →
      record.endpointId = endpointId → s.db.endpoints.find? endpointId = some r →
      outcome.organizationId = some r.organizationId →
      s.db.deliveries.rows.any (leased (leaseKeyOf record)) = true →
      (verdictFailure (workers i).options record outcome random).any
        (isFirstDeath record) = true →
      shouldAutoDisable ⟨r.consecutiveFailures + 1, r.firstFailedAt.getD s.clock⟩ processNow
        (workers i).options = true →
      r.enabled = true
  | _ => True

end Announcing

/-! ## The block -/

section Block

variable {options : WebhookDeliveryOptions} {db : WebhookDb} {delivery : DeliveryRow}
  {organizationId endpointId : String} {m : SettleMoment}

theorem enabledOf_update {t : EndpointTable} {p : WebhookEndpointRow → Bool}
    {f : WebhookEndpointRow → WebhookEndpointRow} (hf : ∀ r, Keyed.key (f r) = Keyed.key r)
    (henabled : ∀ r, (f r).enabled = r.enabled) :
    enabledOf (t.update p f hf) endpointId = enabledOf t endpointId := by
  rw [enabledOf, enabledOf, Table.find?_update, Option.map_map]
  congr 1
  funext r
  rw [Function.comp_apply]
  split
  · exact henabled r
  · rfl

theorem disablings_append (events : List WorkerEvent) :
    disablings { db with outbox := db.outbox ++ events } endpointId =
      disablings db endpointId + events.countP (isDisabling endpointId) :=
  List.countP_append

theorem disablings_exhausted : disablings { db with
    outbox := db.outbox ++ [exhaustedEvent delivery organizationId] } endpointId =
    disablings db endpointId :=
  disablings_append _

/-- The block of another endpoint's delivery. -/
theorem disabling_other (hne : delivery.endpointId ≠ endpointId) :
    disablings (runTerminalFailureBlock options db delivery organizationId m) endpointId =
        disablings db endpointId ∧
      enabledOf (runTerminalFailureBlock options db delivery organizationId m).endpoints
        endpointId = enabledOf db.endpoints endpointId := by
  have hbump : enabledOf (bumpFailure db.endpoints m.now delivery.endpointId
      organizationId).1 endpointId = enabledOf db.endpoints endpointId :=
    enabledOf_update (f := bumpedSet m.now) (fun _ => rfl) fun _ => rfl
  have hother : ∀ bumped, [disabledEvent delivery organizationId bumped].countP
      (isDisabling endpointId) = 0 := by
    intro bumped
    rw [List.countP_singleton, disabledEvent, isDisabling, decide_eq_false hne, Bool.false_and]
    rfl
  simp only [runTerminalFailureBlock]
  split
  · exact ⟨disablings_exhausted, hbump⟩
  · next bumped _ =>
      split
      · refine ⟨?_, ?_⟩
        · rw [disablings, List.countP_append, hother]
          exact disablings_exhausted
        · exact (congrArg (Option.map _)
            (find?_other (f := disabledSet m.processNow) (fun _ => rfl) hne)).trans hbump
      · exact ⟨disablings_exhausted, hbump⟩

/-- The block of a delivery whose endpoint is not, or no longer, the
organization's. -/
theorem disabling_not_found (howner : ∀ r, db.endpoints.find? delivery.endpointId = some r →
      r.organizationId ≠ organizationId) :
    disablings (runTerminalFailureBlock options db delivery organizationId m)
        delivery.endpointId = disablings db delivery.endpointId ∧
      enabledOf (runTerminalFailureBlock options db delivery organizationId m).endpoints
        delivery.endpointId = enabledOf db.endpoints delivery.endpointId := by
  have hnone : (bumpFailure db.endpoints m.now delivery.endpointId organizationId).2 = none := by
    rw [bumpFailure_snd, Option.map_eq_none_iff, Option.filter_eq_none_iff]
    exact fun r hr => by simpa using howner r hr
  simp only [runTerminalFailureBlock, hnone]
  exact ⟨disablings_exhausted,
    enabledOf_update (f := bumpedSet m.now) (fun _ => rfl) fun _ => rfl⟩

/-- The block of a delivery whose endpoint is found: past the threshold there is
one more event, and the endpoint is disabled. -/
theorem disabling_found {r : WebhookEndpointRow}
    (hr : db.endpoints.find? delivery.endpointId = some r)
    (howner : r.organizationId = organizationId) {past : Bool}
    (hpast : shouldAutoDisable ⟨r.consecutiveFailures + 1, r.firstFailedAt.getD m.now⟩
      m.processNow options = past) :
    disablings (runTerminalFailureBlock options db delivery organizationId m)
        delivery.endpointId = disablings db delivery.endpointId + (if past then 1 else 0) ∧
      enabledOf (runTerminalFailureBlock options db delivery organizationId m).endpoints
        delivery.endpointId = some (!past && r.enabled) := by
  have hbumped : (bumpFailure db.endpoints m.now delivery.endpointId organizationId).2 =
      some ⟨r.consecutiveFailures + 1, r.firstFailedAt.getD m.now⟩ := by
    rw [bumpFailure_snd, hr, Option.filter_some, if_pos (decide_eq_true howner),
      Option.map_some]
  have hbump : (bumpFailure db.endpoints m.now delivery.endpointId
      organizationId).1.find? delivery.endpointId = some (bumpedSet m.now r) :=
    find?_owned (f := bumpedSet m.now) (fun _ => rfl) hr howner
  simp only [runTerminalFailureBlock, hbumped, hpast]
  cases past with
  | false =>
      refine ⟨disablings_exhausted, ?_⟩
      show enabledOf (bumpFailure db.endpoints m.now delivery.endpointId organizationId).1
        delivery.endpointId = _
      rw [enabledOf, hbump]
      rfl
  | true =>
      constructor
      · rw [if_pos rfl, disablings, List.countP_append]
        refine congrArg₂ (· + ·) disablings_exhausted ?_
        rw [List.countP_singleton, disabledEvent, isDisabling]
        simp
      · rw [if_pos rfl]
        have hdisabled := find?_owned (f := disabledSet m.processNow) (fun _ => rfl) hbump howner
        rw [enabledOf, markDisabled, hdisabled]
        rfl

end Block

/-! ## A step -/

section Step

variable {κ : Type} {workers : Nat → WebhookWorker κ} {s s' : WorkerState κ}
  {a : WorkerAction κ} {endpointId : String}

theorem announces_of_same (hcount : disablings s'.db endpointId = disablings s.db endpointId)
    (hflag : isSettle a = true →
      enabledOf s'.db.endpoints endpointId = enabledOf s.db.endpoints endpointId) :
    AnnouncesDisabling endpointId s a s' := by
  rw [AnnouncesDisabling, hcount, if_neg]
  · rfl
  · rintro ⟨hsettle, hon, hoff⟩
    rw [hflag hsettle, hon] at hoff
    cases hoff

/-- Past the threshold, one event is right for an endpoint that was enabled and
for no other. -/
theorem announces_found {enabled past : Bool} {j : Nat} {processNow : Time} {random : Draw}
    (hbefore : enabledOf s.db.endpoints endpointId = some enabled)
    (hcount : disablings s'.db endpointId =
      disablings s.db endpointId + if past then 1 else 0)
    (hafter : enabledOf s'.db.endpoints endpointId = some (!past && enabled)) :
    AnnouncesDisabling endpointId s (.settle j processNow random) s' ↔
      (past = true → enabled = true) := by
  have hturns : TurnsOff endpointId s (.settle j processNow random) s' ↔
      past = true ∧ enabled = true := by
    rw [TurnsOff, hafter, hbefore]
    cases past <;> cases enabled <;> simp [isSettle]
  rw [AnnouncesDisabling, hcount]
  simp only [hturns]
  cases past <;> cases enabled <;> simp

/-- The settlement of a job, with what became of it. -/
theorem settle_iff_timely {i j : Nat} {record : DeliveryRow} {processing : Processing κ}
    {outcome : Outcome} {processNow : Time} {random : Draw}
    (hjob : s.jobs[j]? = some ⟨i, record, .processed processing outcome⟩)
    (hdb : s'.db = settleDelivery (workers i).options s.db record outcome
      ⟨s.clock, processNow, random⟩) :
    AnnouncesDisabling endpointId s (.settle j processNow random) s' ↔
      Timely workers endpointId s (.settle j processNow random) := by
  obtain ⟨failure, hfailure⟩ : ∃ failure, verdictFailure (workers i).options record outcome
    random = failure := ⟨_, rfl⟩
  obtain ⟨wrote, hwrote⟩ : ∃ wrote, (writeVerdict s.db.deliveries record outcome failure
    s.clock).2 = wrote := ⟨_, rfl⟩
  have hreached : s.db.deliveries.rows.any (leased (leaseKeyOf record)) = wrote := by
    rw [← hwrote, writeVerdict_eq]
    rfl
  -- A settlement that does not run the block is silent, and is in time.
  have hsilent : disablings s'.db endpointId = disablings s.db endpointId →
      enabledOf s'.db.endpoints endpointId = enabledOf s.db.endpoints endpointId →
      ¬ (wrote = true ∧ outcome.organizationId.isSome ∧
        failure.any (isFirstDeath record) = true) →
      (AnnouncesDisabling endpointId s (.settle j processNow random) s' ↔
        Timely workers endpointId s (.settle j processNow random)) := by
    intro hcount hflag hnot
    refine iff_of_true (announces_of_same hcount fun _ => hflag) ?_
    intro i' record' processing' outcome' r hjob' _ _ horg hreach hdeath _
    rw [hjob] at hjob'
    cases hjob'
    rw [hreached] at hreach
    rw [hfailure] at hdeath
    exact absurd ⟨hreach, by rw [horg]; rfl, hdeath⟩ hnot
  rcases settleDelivery_cases (m := ⟨s.clock, processNow, random⟩) hfailure hwrote with
    ⟨hends, hout, hquiet⟩ | ⟨o, -, -, hnone, hreset, hout⟩ |
    ⟨o, db', hblock, hends, hout, horg, hw, hfirst⟩
  · refine hsilent ?_ ?_ fun h => hquiet ⟨h.1, h.2.1, .inr h.2.2⟩
    · rw [disablings, hdb, hout]
      rfl
    · rw [hdb, hends]
  · refine hsilent ?_ ?_ ?_
    · rw [disablings, hdb, hout]
      rfl
    · rw [hdb, hreset]
      exact enabledOf_update (f := resetSet) (fun _ => rfl) fun _ => rfl
    · rw [hnone]
      exact fun h => Bool.noConfusion h.2.2
  · have hsame : disablings db' endpointId = disablings s.db endpointId := by
      rw [disablings, hout]
      rfl
    rw [hblock] at hdb
    by_cases hours : record.endpointId = endpointId
    · subst hours
      by_cases hfound : ∃ r, s.db.endpoints.find? record.endpointId = some r ∧
          r.organizationId = o
      · obtain ⟨r, hr, howner⟩ := hfound
        obtain ⟨past, hpast⟩ : ∃ past, shouldAutoDisable ⟨r.consecutiveFailures + 1,
          r.firstFailedAt.getD s.clock⟩ processNow (workers i).options = past := ⟨_, rfl⟩
        obtain ⟨hcount, hflag⟩ := disabling_found
          (m := ⟨s.clock, processNow, random⟩) (hends ▸ hr) howner hpast
        have htimely : Timely workers record.endpointId s (.settle j processNow random) ↔
            (past = true → r.enabled = true) := by
          constructor
          · intro h hp
            exact h i record processing outcome r hjob rfl hr (by rw [horg, howner])
              (by rw [hreached, hw]) (by rw [hfailure, hfirst]) (hpast.trans hp)
          · intro h i' record' processing' outcome' r' hjob' _ hr' _ _ _ hp
            rw [hjob] at hjob'
            cases hjob'
            rw [hr] at hr'
            cases hr'
            exact h (hpast.symm.trans hp)
        rw [htimely]
        refine announces_found ?_ ?_ ?_
        · rw [enabledOf, hr, Option.map_some]
        · rw [hdb, hcount, hsame]
        · rw [hdb, hflag]
      · have hnot : ∀ r, db'.endpoints.find? record.endpointId = some r →
            r.organizationId ≠ o := fun r hr howner => hfound ⟨r, hends ▸ hr, howner⟩
        refine iff_of_true (announces_of_same ?_ fun _ => ?_) ?_
        · rw [hdb, (disabling_not_found hnot).1, hsame]
        · rw [hdb, (disabling_not_found hnot).2, hends]
        · intro i' record' processing' outcome' r hjob' _ hr horg' _ _ _
          rw [hjob] at hjob'
          cases hjob'
          rw [horg, Option.some.injEq] at horg'
          exact absurd ⟨r, hr, horg'.symm⟩ hfound
    · refine iff_of_true (announces_of_same ?_ fun _ => ?_) ?_
      · rw [hdb, (disabling_other hours).1, hsame]
      · rw [hdb, (disabling_other hours).2, hends]
      · intro i' record' processing' outcome' r hjob' hours' _ _ _ _ _
        rw [hjob] at hjob'
        cases hjob'
        exact absurd hours' hours

theorem announces_iff_timely (hs : workerStep workers s a = some s') :
    AnnouncesDisabling endpointId s a s' ↔ Timely workers endpointId s a := by
  by_cases hsettle : isSettle a = true
  · cases a with
    | settle j processNow random =>
        obtain ⟨i, record, processing, outcome, hjob, rfl⟩ := settle_eq_some hs
        exact settle_iff_timely hjob rfl
    | _ => cases hsettle
  · have hout := (still_step (eq_false_of_ne_true hsettle) hs).2
    refine iff_of_true (announces_of_same ?_ fun h => absurd h hsettle) ?_
    · rw [disablings, hout]
      rfl
    · cases a with
      | settle j processNow random => exact absurd rfl hsettle
      | _ => trivial

/-- A step announces the disabling of an endpoint as it should exactly if it is
in time; so in a run of steps that are, the announcements are the disablings. -/
theorem disabling_announced_iff {as : List (WorkerAction κ)}
    (h : exec (workerStep workers) s as = some s') :
    (∀ a v, workerStep workers s' a = some v →
      (AnnouncesDisabling endpointId s' a v ↔ Timely workers endpointId s' a)) ∧
    (Meets (workerStep workers) (Timely workers endpointId) s as →
      disablings s'.db endpointId =
        disablings s.db endpointId + turnsOff workers endpointId s as) := by
  refine ⟨fun a v hs => announces_iff_timely hs, ?_⟩
  induction as generalizing s with
  | nil =>
      cases h
      exact fun _ => rfl
  | cons a as ih =>
      intro hmeets
      obtain ⟨m, hm, hrest⟩ := exec_cons_iff.1 h
      have hstep := (announces_iff_timely hm).2 hmeets.1
      rw [ih hrest (hmeets.2 m hm), turnsOff, hm, hstep]
      exact Nat.add_assoc _ _ _

end Step

/-! ## Two deliveries in flight -/

/-- Two deliveries on their last attempt, of an endpoint that has failed for
long. -/
def failingState : WorkerState Unit :=
  hooksState (hooksEndpoint 5 (some 0))
    [{ paidDelivery with attempts := 3 },
      { paidDelivery with id := "d2", attempts := 3, idempotencyKey := "k2" }] (by decide)

/-- Both are looked up, and the first is settled. -/
def firstSettled : List (WorkerAction Unit) :=
  [.claim 0 (fun _ => false) 10, .process 0 (.lookedUp (some ()) slowWorld),
    .process 1 (.lookedUp (some ()) slowWorld), .settle 0 1000000000000 0]

theorem disabled_twice :
    ¬ ∀ (as : List (WorkerAction Unit)) (a : WorkerAction Unit) (s v : WorkerState Unit),
      exec (workerStep fun _ => hooksWorker) failingState as = some s →
      workerStep (fun _ => hooksWorker) s a = some v → AnnouncesDisabling "w1" s a v := by
  intro hall
  have hrun : (exec (workerStep fun _ => hooksWorker) failingState firstSettled).bind (fun s =>
      (workerStep (fun _ => hooksWorker) s (.settle 1 1000000000000 0)).map fun v =>
        (disablings s.db "w1", disablings v.db "w1", enabledOf s.db.endpoints "w1")) =
      some (1, 2, some false) := by
    decide
  obtain ⟨s, hs, hstep⟩ := Option.bind_eq_some_iff.1 hrun
  obtain ⟨v, hv, hnumbers⟩ := Option.map_eq_some_iff.1 hstep
  obtain ⟨hbefore, hrest⟩ := Prod.mk.inj hnumbers
  obtain ⟨hafter, hoff⟩ := Prod.mk.inj hrest
  have hannounces := hall _ _ s v hs hv
  rw [AnnouncesDisabling, hbefore, hafter, if_neg] at hannounces
  · cases hannounces
  · rintro ⟨-, hon, -⟩
    rw [hoff] at hon
    cases hon

theorem disabling_announced_hooks :
    ∃ s, exec (workerStep fun _ => hooksWorker) failingState firstSettled = some s ∧
      disablings s.db "w1" = 1 ∧ enabledOf s.db.endpoints "w1" = some false ∧
      (∀ a v, workerStep (fun _ => hooksWorker) s a = some v →
        (AnnouncesDisabling "w1" s a v ↔ Timely (fun _ => hooksWorker) "w1" s a)) ∧
      (Meets (workerStep fun _ => hooksWorker) (Timely (fun _ => hooksWorker) "w1") failingState
        firstSettled → disablings s.db "w1" =
          disablings failingState.db "w1" +
            turnsOff (fun _ => hooksWorker) "w1" failingState firstSettled) := by
  have hrun : (exec (workerStep fun _ => hooksWorker) failingState firstSettled).map (fun s =>
      (disablings s.db "w1", enabledOf s.db.endpoints "w1")) = some (1, some false) := by
    decide
  obtain ⟨s, hs, hnumbers⟩ := Option.map_eq_some_iff.1 hrun
  obtain ⟨hone, hoff⟩ := Prod.mk.inj hnumbers
  exact ⟨s, hs, hone, hoff, disabling_announced_iff hs⟩

end CleanStack.Webhooks
