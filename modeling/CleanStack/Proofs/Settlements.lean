import CleanStack.Webhooks.Settlement

/-!
# What a settlement does

The facts about one settlement, of a delivery its record recalls: when it kills
the delivery, when it makes it succeed, and what it does to the endpoint and
to the events beside it. The other statements on deliveries are still: no
status changes.
-/

namespace CleanStack.Webhooks

open CleanStack.Lib CleanStack.Drizzle CleanStack.Outbox

def isDeadLetter (r : DeliveryRow) : Bool := r.status = .deadLetter

/-- The delivery is one of the endpoint and becomes a dead letter. -/
def Dies (endpointId : String) (t t' : DeliveryTable) (id : String) : Prop :=
  (t.find? id).map (fun r => (r.endpointId, isDeadLetter r)) = some (endpointId, false) ∧
    (t'.find? id).map isDeadLetter = some true

instance (endpointId : String) (t t' : DeliveryTable) (id : String) :
    Decidable (Dies endpointId t t' id) :=
  inferInstanceAs (Decidable (_ ∧ _))

def deaths (endpointId : String) (t t' : DeliveryTable) : Nat :=
  (t.rows.filter fun r => Dies endpointId t t' r.id).length

/-- A delivery of the endpoint succeeds. -/
def succeeds (endpointId : String) (t t' : DeliveryTable) : Bool :=
  t.rows.any fun r => r.endpointId = endpointId && r.status ≠ .success &&
    (t'.find? r.id).any fun r' => r'.status = .success

def isExhaustion (endpointId deliveryId : String) : WorkerEvent → Bool
  | .exhausted event => event.endpointId = endpointId && event.deliveryId = deliveryId
  | .disabled _ => false

/-- How often the exhaustion of a delivery is announced. -/
def exhaustions (db : WebhookDb) (endpointId deliveryId : String) : Nat :=
  db.outbox.countP (isExhaustion endpointId deliveryId)

def failuresOf (t : EndpointTable) (endpointId : String) : Option Nat :=
  (t.find? endpointId).map fun r => r.consecutiveFailures

/-! ## Steps that settle nothing -/

section Still

variable {t t' : DeliveryTable} {endpointId : String}

/-- The rows that are there before and after have the status they had. -/
def Still (t t' : DeliveryTable) : Prop :=
  ∀ id r r', t.find? id = some r → t'.find? id = some r' →
    r'.status = r.status ∧ r'.endpointId = r.endpointId

theorem still_refl (t : DeliveryTable) : Still t t := by
  intro id r r' hr hr'
  rw [hr] at hr'
  cases hr'
  exact ⟨rfl, rfl⟩

theorem still_update {p : DeliveryRow → Bool} {f : DeliveryRow → DeliveryRow}
    (hf : ∀ r, Keyed.key (f r) = Keyed.key r) (hstatus : ∀ r, (f r).status = r.status)
    (hendpoint : ∀ r, (f r).endpointId = r.endpointId) : Still t (t.update p f hf) := by
  intro id r r' hr hr'
  rw [Table.find?_update, hr, Option.map_some, Option.some.injEq] at hr'
  subst hr'
  split
  · exact ⟨hstatus r, hendpoint r⟩
  · exact ⟨rfl, rfl⟩

theorem still_insert {r : DeliveryRow} (hins : t.insert r = some t') : Still t t' := by
  intro id r₀ r' hr hr'
  rw [Table.find?_insert_of_find? hins hr] at hr'
  cases hr'
  exact ⟨rfl, rfl⟩

theorem still_delete (p : DeliveryRow → Bool) : Still t (t.delete p) := by
  intro id r r' hr hr'
  rw [Table.find?_delete, hr] at hr'
  obtain ⟨hr', -⟩ := Option.filter_eq_some_iff.1 hr'
  cases hr'
  exact ⟨rfl, rfl⟩

theorem Still.not_dies (h : Still t t') (id : String) : ¬ Dies endpointId t t' id := by
  rintro ⟨halive, hdead⟩
  obtain ⟨r, hr, halive⟩ := Option.map_eq_some_iff.1 halive
  obtain ⟨r', hr', hdead⟩ := Option.map_eq_some_iff.1 hdead
  obtain ⟨-, halive⟩ := Prod.mk.inj halive
  rw [isDeadLetter, (h id r r' hr hr').1, ← isDeadLetter, halive] at hdead
  cases hdead

theorem Still.deaths_eq (h : Still t t') : deaths endpointId t t' = 0 := by
  rw [deaths, List.length_eq_zero_iff, List.filter_eq_nil_iff]
  intro r _ hdies
  exact h.not_dies r.id (of_decide_eq_true hdies)

theorem succeeds_iff : succeeds endpointId t t' = true ↔
    ∃ id r r', t.find? id = some r ∧ r.endpointId = endpointId ∧ r.status ≠ .success ∧
      t'.find? id = some r' ∧ r'.status = .success := by
  simp only [succeeds, List.any_eq_true, Bool.and_eq_true, decide_eq_true_eq, Option.any_eq_true]
  constructor
  · rintro ⟨r, hr, ⟨hendpoint, hopen⟩, r', hr', hsuccess⟩
    exact ⟨r.id, r, r', Table.find?_eq_some.2 ⟨hr, rfl⟩, hendpoint, hopen, hr', hsuccess⟩
  · rintro ⟨id, r, r', hr, hendpoint, hopen, hr', hsuccess⟩
    obtain ⟨hmem, rfl⟩ := Table.find?_eq_some.1 hr
    exact ⟨r, hmem, ⟨hendpoint, hopen⟩, r', hr', hsuccess⟩

theorem Still.succeeds_eq (h : Still t t') : succeeds endpointId t t' = false := by
  rw [← Bool.not_eq_true, succeeds_iff]
  rintro ⟨id, r, r', hr, -, hopen, hr', hsuccess⟩
  exact hopen ((h id r r' hr hr').1.symm.trans hsuccess)

end Still

section Step

variable {κ : Type} {workers : Nat → WebhookWorker κ} {s s' : WorkerState κ}
  {a : WorkerAction κ}

def isSettle : WorkerAction κ → Bool
  | .settle .. => true
  | _ => false

/-- Only a settlement changes the status of a delivery, or emits an event. -/
theorem still_step (ha : isSettle a = false)
    (hs : workerStep workers s a = some s') :
    Still s.db.deliveries s'.db.deliveries ∧ s'.db.outbox = s.db.outbox := by
  have hsame := still_refl s.db.deliveries
  cases a with
  | claim i locked limit =>
      cases hs
      exact ⟨still_update (f := claimedSet s.clock (workers i).options.leaseSeconds)
        (key_claimedSet _ _) (fun _ => rfl) fun _ => rfl, rfl⟩
  | process j processing =>
      obtain ⟨i, record, -, rfl⟩ := process_eq_some hs
      exact ⟨hsame, rfl⟩
  | settle j processNow random => cases ha
  | giveBack j =>
      obtain ⟨i, record, -, rfl⟩ := giveBack_eq_some hs
      exact ⟨still_update (f := releasedSet s.clock) (key_releasedSet _) (fun _ => rfl)
        fun _ => rfl, rfl⟩
  | abandon j =>
      obtain ⟨job, -, rfl⟩ := Option.map_eq_some_iff.1 hs
      exact ⟨hsame, rfl⟩
  | enqueue r =>
      obtain ⟨-, deliveries, hins, rfl⟩ := enqueue_eq_some hs
      exact ⟨still_insert hins, rfl⟩
  | createEndpoint endpoint eventTypes enabled =>
      obtain ⟨endpoints, -, rfl⟩ := Option.map_eq_some_iff.1 hs
      exact ⟨hsame, rfl⟩
  | updateEndpoint args =>
      cases hs
      exact ⟨hsame, rfl⟩
  | rotateSecret id organizationId secretCipher previousSecretCipher previousSecretExpiresAt =>
      cases hs
      exact ⟨hsame, rfl⟩
  | deleteEndpoint id organizationId =>
      cases hs
      simp only [deleteEndpoint]
      split
      · exact ⟨still_delete _, rfl⟩
      · exact ⟨hsame, rfl⟩
  | wait n =>
      cases hs
      exact ⟨hsame, rfl⟩

end Step

/-! ## The statement on the delivery -/

def verdictSet (outcome : Outcome) (failure : Option DeliveryFailure) (now : Time) :
    DeliveryRow → DeliveryRow :=
  match failure with
  | some failure => failedSet now failure
  | none => successSet outcome.responseStatus

section Verdict

variable {t : DeliveryTable} {record : DeliveryRow} {outcome : Outcome}
  {failure : Option DeliveryFailure} {now : Time} {endpointId : String}

theorem verdictSet_id (r : DeliveryRow) :
    Keyed.key (verdictSet outcome failure now r) = Keyed.key r := by
  cases failure <;> rfl

theorem verdictSet_attempts (r : DeliveryRow) :
    (verdictSet outcome failure now r).attempts = r.attempts := by
  cases failure <;> rfl

theorem writeVerdict_eq : writeVerdict t record outcome failure now =
    settle t (leaseKeyOf record) (verdictSet outcome failure now) verdictSet_id := by
  cases failure <;> rfl

theorem find?_writeVerdict (id : String) :
    (writeVerdict t record outcome failure now).1.find? id = (t.find? id).map fun r =>
      if leased (leaseKeyOf record) r then verdictSet outcome failure now r else r := by
  rw [writeVerdict_eq, settle, Table.find?_update]

theorem wrote_iff : (writeVerdict t record outcome failure now).2 = true ↔
    ∃ r ∈ t.rows, leased (leaseKeyOf record) r = true := by
  rw [writeVerdict_eq, settle, List.any_eq_true]

theorem leased_iff {r : DeliveryRow} : leased (leaseKeyOf record) r = true ↔
    (r.id = record.id ∧ r.attempts = record.attempts) ∧ unsettled r = true := by
  rw [leased, Bool.and_eq_true]
  refine and_congr_left fun _ => ?_
  rw [leasedBy, Bool.and_eq_true, decide_eq_true_eq, decide_eq_true_eq]
  rfl

theorem open_of_unsettled {r : DeliveryRow} (h : unsettled r = true) : r.status ≠ .success := by
  intro hsuccess
  rw [unsettled, hsuccess] at h
  cases h

/-- The rows the lease of a record reaches are as the record remembers them. -/
def Recalls (t : DeliveryTable) (record : DeliveryRow) : Prop :=
  ∀ r ∈ t.rows, leased (leaseKeyOf record) r = true →
    r.status = record.status ∧ r.endpointId = record.endpointId

theorem isDeadLetter_failedSet {failure : DeliveryFailure} (r : DeliveryRow) :
    isDeadLetter (failedSet now failure r) = failure.deadLetter := by
  rw [isDeadLetter, failedSet]
  cases failure.deadLetter <;> rfl

/-- A settlement kills the delivery if it writes a first death on it. -/
theorem dies_writeVerdict (hrec : Recalls t record) (id : String) :
    Dies endpointId t (writeVerdict t record outcome failure now).1 id ↔
      id = record.id ∧ record.endpointId = endpointId ∧
        (writeVerdict t record outcome failure now).2 = true ∧
        failure.any (isFirstDeath record) = true := by
  rw [Dies, find?_writeVerdict, wrote_iff, Option.map_map]
  constructor
  · rintro ⟨halive, hdead⟩
    obtain ⟨r, hfind, halive⟩ := Option.map_eq_some_iff.1 halive
    obtain ⟨hr, hid⟩ := Table.find?_eq_some.1 hfind
    obtain ⟨hendpoint, halive⟩ := Prod.mk.inj halive
    rw [hfind, Option.map_some, Option.some.injEq, Function.comp_apply] at hdead
    by_cases hleased : leased (leaseKeyOf record) r = true
    · obtain ⟨hstatus, howner⟩ := hrec r hr hleased
      rw [if_pos hleased] at hdead
      refine ⟨hid.symm.trans (leased_iff.1 hleased).1.1, howner.symm.trans hendpoint,
        ⟨r, hr, hleased⟩, ?_⟩
      cases failure with
      | none => cases hdead
      | some failure =>
          rw [verdictSet, isDeadLetter_failedSet] at hdead
          rw [isDeadLetter, hstatus] at halive
          rw [Option.any_some, isFirstDeath, hdead, Bool.true_and]
          exact decide_eq_true (of_decide_eq_false halive)
    · rw [if_neg hleased, halive] at hdead
      cases hdead
  · rintro ⟨rfl, hendpoint, ⟨r, hr, hleased⟩, hdeath⟩
    obtain ⟨hstatus, howner⟩ := hrec r hr hleased
    obtain ⟨failure, rfl, hfirst⟩ := (Option.any_eq_true _ _).1 hdeath
    obtain ⟨hdead, halive⟩ := Bool.and_eq_true_iff.1 hfirst
    rw [Table.find?_eq_some.2 ⟨hr, (leased_iff.1 hleased).1.1⟩, Option.map_some,
      Option.map_some, Function.comp_apply, if_pos hleased, verdictSet,
      isDeadLetter_failedSet, hdead, howner, hendpoint, isDeadLetter, hstatus]
    exact ⟨by rw [decide_eq_false (of_decide_eq_true halive)], rfl⟩

theorem succeeds_writeVerdict (hrec : Recalls t record) :
    succeeds endpointId t (writeVerdict t record outcome failure now).1 = true ↔
      record.endpointId = endpointId ∧
        (writeVerdict t record outcome failure now).2 = true ∧ failure = none := by
  rw [succeeds_iff, wrote_iff]
  constructor
  · rintro ⟨id, r, r', hfind, hendpoint, hopen, hfind', hsuccess⟩
    rw [find?_writeVerdict, hfind, Option.map_some, Option.some.injEq] at hfind'
    subst hfind'
    have hr := (Table.find?_eq_some.1 hfind).1
    by_cases hleased : leased (leaseKeyOf record) r = true
    · rw [if_pos hleased] at hsuccess
      refine ⟨(hrec r hr hleased).2.symm.trans hendpoint, ⟨r, hr, hleased⟩, ?_⟩
      cases failure with
      | none => rfl
      | some failure =>
          rw [verdictSet, failedSet] at hsuccess
          dsimp only at hsuccess
          split at hsuccess <;> cases hsuccess
    · rw [if_neg hleased] at hsuccess
      exact absurd hsuccess hopen
  · rintro ⟨hendpoint, ⟨r, hr, hleased⟩, rfl⟩
    have hfind : t.find? r.id = some r := Table.find?_eq_some.2 ⟨hr, rfl⟩
    refine ⟨r.id, r, successSet outcome.responseStatus r, hfind,
      (hrec r hr hleased).2.trans hendpoint,
      open_of_unsettled (leased_iff.1 hleased).2, ?_, rfl⟩
    rw [find?_writeVerdict, hfind, Option.map_some, if_pos hleased]
    rfl

/-- The number of deaths, where at most one delivery may die. -/
theorem deaths_eq {t t' : DeliveryTable} {k : String} {P : Prop} [Decidable P]
    (h : ∀ id, Dies endpointId t t' id ↔ id = k ∧ P) :
    deaths endpointId t t' = if P then 1 else 0 := by
  rw [deaths]
  by_cases hP : P
  · have hdies := (h k).2 ⟨rfl, hP⟩
    obtain ⟨r, hr, -⟩ := Option.map_eq_some_iff.1 hdies.1
    have hrows : t.rows.filter (fun r => Dies endpointId t t' r.id) =
        t.rows.filter fun r => Keyed.key r = k := by
      refine List.filter_congr fun r _ => ?_
      rw [decide_eq_decide, h]
      exact and_iff_left hP
    rw [hrows, Table.filter_key, hr, if_pos hP]
    rfl
  · rw [if_neg hP, List.length_eq_zero_iff, List.filter_eq_nil_iff]
    exact fun r _ hdies => hP ((h r.id).1 (of_decide_eq_true hdies)).2

end Verdict

/-! ## The endpoint and the events -/

def ownerOf (t : EndpointTable) (endpointId : String) : Option String :=
  (t.find? endpointId).map fun r => r.organizationId

section Endpoints

variable {t : EndpointTable} {endpointId id organizationId : String}
  {f : WebhookEndpointRow → WebhookEndpointRow}

theorem find?_other (hf : ∀ r, Keyed.key (f r) = Keyed.key r) (hne : id ≠ endpointId) :
    (t.update (ownedBy id organizationId) f hf).find? endpointId = t.find? endpointId := by
  rw [Table.find?_update]
  cases hfind : t.find? endpointId with
  | none => rfl
  | some r =>
      rw [Option.map_some, if_neg]
      intro howned
      exact hne ((ownedBy_iff.1 howned).1.symm.trans (Table.find?_eq_some.1 hfind).2)

theorem find?_owned (hf : ∀ r, Keyed.key (f r) = Keyed.key r) {r : WebhookEndpointRow}
    (hfind : t.find? id = some r) (howner : r.organizationId = organizationId) :
    (t.update (ownedBy id organizationId) f hf).find? id = some (f r) := by
  rw [Table.find?_update, hfind, Option.map_some, if_pos]
  exact ownedBy_iff.2 ⟨(Table.find?_eq_some.1 hfind).2, howner⟩

theorem ownerOf_update {p : WebhookEndpointRow → Bool} (hf : ∀ r, Keyed.key (f r) = Keyed.key r)
    (howner : ∀ r, (f r).organizationId = r.organizationId) :
    ownerOf (t.update p f hf) endpointId = ownerOf t endpointId := by
  rw [ownerOf, ownerOf, Table.find?_update, Option.map_map]
  congr 1
  funext r
  rw [Function.comp_apply]
  split
  · exact howner r
  · rfl

theorem failuresOf_update {p : WebhookEndpointRow → Bool}
    (hf : ∀ r, Keyed.key (f r) = Keyed.key r)
    (hcount : ∀ r, (f r).consecutiveFailures = r.consecutiveFailures) :
    failuresOf (t.update p f hf) endpointId = failuresOf t endpointId := by
  rw [failuresOf, failuresOf, Table.find?_update, Option.map_map]
  congr 1
  funext r
  rw [Function.comp_apply]
  split
  · exact hcount r
  · rfl

end Endpoints

section Block

variable {options : WebhookDeliveryOptions} {db : WebhookDb} {delivery : DeliveryRow}
  {organizationId endpointId : String} {m : SettleMoment} {outcome : Outcome}

theorem runTerminalFailureBlock_deliveries :
    (runTerminalFailureBlock options db delivery organizationId m).deliveries =
      db.deliveries := by
  simp only [runTerminalFailureBlock]
  split
  · rfl
  · split
    · rfl
    · rfl

theorem ownerOf_runTerminalFailureBlock :
    ownerOf (runTerminalFailureBlock options db delivery organizationId m).endpoints endpointId =
      ownerOf db.endpoints endpointId := by
  have hbump : ownerOf (bumpFailure db.endpoints m.now delivery.endpointId
      organizationId).1 endpointId = ownerOf db.endpoints endpointId :=
    ownerOf_update (f := bumpedSet m.now) (fun _ => rfl) fun _ => rfl
  simp only [runTerminalFailureBlock]
  split
  · exact hbump
  · split
    · exact (ownerOf_update (f := disabledSet m.processNow) (fun _ => rfl)
        fun _ => rfl).trans hbump
    · exact hbump

/-- The one exhaustion of the block, and the one failure it counts. -/
theorem exhaustions_runTerminalFailureBlock (id : String) :
    exhaustions (runTerminalFailureBlock options db delivery organizationId m) endpointId id =
      exhaustions db endpointId id +
        if delivery.endpointId = endpointId ∧ delivery.id = id then 1 else 0 := by
  have hone : [exhaustedEvent delivery organizationId].countP (isExhaustion endpointId id) =
      if delivery.endpointId = endpointId ∧ delivery.id = id then 1 else 0 := by
    rw [List.countP_singleton]
    simp only [exhaustedEvent, isExhaustion, Bool.and_eq_true, decide_eq_true_eq]
  simp only [runTerminalFailureBlock]
  split
  · rw [exhaustions, List.countP_append, hone]
    rfl
  · split
    · rw [exhaustions, List.countP_append, List.countP_append, hone]
      rfl
    · rw [exhaustions, List.countP_append, hone]
      rfl

theorem failuresOf_runTerminalFailureBlock_other (hne : delivery.endpointId ≠ endpointId) :
    failuresOf (runTerminalFailureBlock options db delivery organizationId m).endpoints
      endpointId = failuresOf db.endpoints endpointId := by
  have hbump : failuresOf (bumpFailure db.endpoints m.now delivery.endpointId
      organizationId).1 endpointId = failuresOf db.endpoints endpointId :=
    congrArg (Option.map _) (find?_other (f := bumpedSet m.now) (fun _ => rfl) hne)
  simp only [runTerminalFailureBlock]
  split
  · exact hbump
  · split
    · exact (failuresOf_update (f := disabledSet m.processNow) (fun _ => rfl)
        fun _ => rfl).trans hbump
    · exact hbump

theorem failuresOf_runTerminalFailureBlock
    (howner : ownerOf db.endpoints delivery.endpointId = some organizationId) :
    failuresOf (runTerminalFailureBlock options db delivery organizationId m).endpoints
      delivery.endpointId = (failuresOf db.endpoints delivery.endpointId).map (· + 1) := by
  obtain ⟨r, hr, howner⟩ := Option.map_eq_some_iff.1 howner
  have hbump : failuresOf (bumpFailure db.endpoints m.now delivery.endpointId
      organizationId).1 delivery.endpointId =
      (failuresOf db.endpoints delivery.endpointId).map (· + 1) := by
    have hafter : (bumpFailure db.endpoints m.now delivery.endpointId
        organizationId).1.find? delivery.endpointId = some (bumpedSet m.now r) :=
      find?_owned (f := bumpedSet m.now) (fun _ => rfl) hr howner
    rw [failuresOf, failuresOf, hafter, hr]
    rfl
  simp only [runTerminalFailureBlock]
  split
  · exact hbump
  · split
    · exact (failuresOf_update (f := disabledSet m.processNow) (fun _ => rfl)
        fun _ => rfl).trans hbump
    · exact hbump

theorem settleDelivery_deliveries : (settleDelivery options db delivery outcome m).deliveries =
    (writeVerdict db.deliveries delivery outcome
      (verdictFailure options delivery outcome m.random) m.now).1 := by
  simp only [settleDelivery]
  split
  · rfl
  · split
    · rfl
    · split
      · rfl
      · split
        · exact runTerminalFailureBlock_deliveries
        · rfl

/-- What a settlement does beside the delivery: nothing, or it resets the
counter, or it runs the block. -/
theorem settleDelivery_cases {failure : Option DeliveryFailure} {wrote : Bool}
    (hfailure : verdictFailure options delivery outcome m.random = failure)
    (hwrote : (writeVerdict db.deliveries delivery outcome failure m.now).2 = wrote) :
    ((settleDelivery options db delivery outcome m).endpoints = db.endpoints ∧
      (settleDelivery options db delivery outcome m).outbox = db.outbox ∧
      ¬ (wrote = true ∧ outcome.organizationId.isSome ∧
        (failure = none ∨ failure.any (isFirstDeath delivery) = true))) ∨
    (∃ o, outcome.organizationId = some o ∧ wrote = true ∧ failure = none ∧
      (settleDelivery options db delivery outcome m).endpoints =
        resetFailure db.endpoints delivery.endpointId o ∧
      (settleDelivery options db delivery outcome m).outbox = db.outbox) ∨
    ∃ o db', settleDelivery options db delivery outcome m =
        runTerminalFailureBlock options db' delivery o m ∧
      db'.endpoints = db.endpoints ∧ db'.outbox = db.outbox ∧
      outcome.organizationId = some o ∧ wrote = true ∧
      failure.any (isFirstDeath delivery) = true := by
  subst hfailure
  subst hwrote
  simp only [settleDelivery]
  split
  · next hnone =>
      exact .inl ⟨rfl, rfl, fun h => by rw [hnone] at h; exact absurd h.2.1 nofun⟩
  · next o horg =>
      split
      · next hskip =>
          refine .inl ⟨rfl, rfl, fun h => ?_⟩
          rw [h.1] at hskip
          cases hskip
      · next hwrote =>
          simp only [Bool.not_eq_true', Bool.not_eq_false] at hwrote
          split
          · next hnone => exact .inr (.inl ⟨o, horg, hwrote, hnone, rfl, rfl⟩)
          · next failure hsome =>
              split
              · next hfirst =>
                  refine .inr (.inr ⟨o, _, rfl, rfl, rfl, horg, hwrote, ?_⟩)
                  rw [hsome]
                  exact hfirst
              · next hlater =>
                  refine .inl ⟨rfl, rfl, fun h => ?_⟩
                  rw [hsome] at h
                  rcases h.2.2 with hnone | hfirst
                  · cases hnone
                  · exact hlater hfirst

end Block

end CleanStack.Webhooks
