import CleanStack.Proofs.SweepReport
import CleanStack.Sweep.OutboxSweep

/-!
# How far the sweep of the outbox gets

A batch goes as a whole or stays as a whole, and the first that stays ends the run:
the next run begins with it again. So the events of the batches before the first with
a referenced event are gone, and nothing else is.
-/

namespace CleanStack.Sweep

open CleanStack.Drizzle CleanStack.Kit CleanStack.Lib CleanStack.Outbox CleanStack.Webhooks

/-! ## Where the loop ends -/

/-- Neither the time budget nor the batch cap ended the run. -/
def Untruncated (run : BatchedRun) : Prop :=
  ∀ result, run.result = some result → result.stopReason.truncates = false

/-- The batches before the last one deleted something; the last one found nothing or
failed. -/
theorem end_sweepLoop {opts : RunBatchedSweepOptions} {left totalDeleted batchCount : Nat}
    (hcap : batchCount + left = MAX_BATCHES)
    (hrun : Untruncated (sweepLoop opts left totalDeleted batchCount)) :
    ∃ k, (∀ i < k, ∃ n, opts.purgeBatch (batchCount + i) = .ok (n + 1)) ∧
      ((opts.purgeBatch (batchCount + k) = .ok 0 ∧
          (sweepLoop opts left totalDeleted batchCount).completed.length = k + 1) ∨
        ((∃ decision, opts.purgeBatch (batchCount + k) = .error decision) ∧
          (sweepLoop opts left totalDeleted batchCount).completed.length = k)) := by
  have hnone : ∀ {P : Nat → Prop}, ∀ i < 0, P i := fun i hi => absurd hi (Nat.not_lt_zero i)
  induction left generalizing totalDeleted batchCount with
  | zero =>
    have hreport := hrun _ rfl
    rw [report, if_pos ⟨rfl, by omega⟩] at hreport
    cases hreport
  | succ left ih =>
    rcases batch_cases opts batchCount with h | ⟨h, hbatch | hbatch | hbatch | ⟨n, hbatch⟩⟩
    · rw [sweepLoop_spent h] at hrun
      have hreport := hrun _ rfl
      cases hreport
    · rw [sweepLoop_throws h hbatch]
      exact ⟨0, hnone, .inr ⟨⟨_, hbatch⟩, rfl⟩⟩
    · rw [sweepLoop_breaks h hbatch]
      exact ⟨0, hnone, .inr ⟨⟨_, hbatch⟩, rfl⟩⟩
    · rw [sweepLoop_empty h hbatch]
      exact ⟨0, hnone, .inl ⟨hbatch, rfl⟩⟩
    · have hshift : ∀ i, batchCount + 1 + i = batchCount + (i + 1) := fun i => by omega
      rw [sweepLoop_again h hbatch] at hrun ⊢
      obtain ⟨k, hfull, hend⟩ := @ih (totalDeleted + (n + 1)) (batchCount + 1) (by omega) hrun
      refine ⟨k + 1, fun i hi => ?_, ?_⟩
      · cases i with
        | zero => exact ⟨n, hbatch⟩
        | succ i =>
          rw [← hshift]
          exact hfull i (Nat.lt_of_succ_lt_succ hi)
      · rw [hshift] at hend
        rcases hend with ⟨hempty, hlen⟩ | ⟨hfail, hlen⟩
        · exact .inl ⟨hempty, congrArg (· + 1) hlen⟩
        · exact .inr ⟨hfail, congrArg (· + 1) hlen⟩

/-! ## One batch -/

section Batches

variable {cutoff : Time} {batchSize : Nat} {choice : BatchChoice cutoff batchSize}
  {deliveries : DeliveryTable}

theorem inBatch_iff {t : OutboxTable} {batch : List OutboxRow}
    (h : LockedBatch cutoff batchSize t batch) {r : OutboxRow} (hr : r ∈ t.rows) :
    inBatch batch r = true ↔ r ∈ batch := by
  rw [inBatch, List.any_eq_true]
  constructor
  · rintro ⟨b, hb, hid⟩
    rw [← Table.eq_of_key (h.eligible b hb).1 hr (of_decide_eq_true hid)]
    exact hb
  · exact fun hb => ⟨r, hb, decide_eq_true rfl⟩

/-- A batch that selects nothing leaves nothing to select. -/
theorem LockedBatch.eligible_of_nil {t : OutboxTable}
    (h : LockedBatch cutoff batchSize t []) (hsize : 0 < batchSize) :
    ∀ r ∈ t.rows, buildPurgeFilter cutoff r = false := by
  have hzero := h.length
  rw [List.length_nil] at hzero
  have hcount : t.rows.countP (buildPurgeFilter cutoff) = 0 := by omega
  exact fun r hr => Bool.eq_false_iff.2 (List.countP_eq_zero.1 hcount r hr)

theorem purgeOnce_none {t : OutboxTable} (h : purgeOnce choice deliveries t = none) :
    ∃ r ∈ choice.batch t, referenced deliveries r = true := by
  unfold purgeOnce purgeBatchWithTimeout at h
  split_ifs at h with hrefused
  obtain ⟨r, hr, hboth⟩ := List.any_eq_true.1 hrefused
  rw [Bool.and_eq_true] at hboth
  exact ⟨r, (inBatch_iff (choice.locked t) hr).1 hboth.1, hboth.2⟩

theorem purgeOnce_some {t u : OutboxTable} {n : Nat}
    (h : purgeOnce choice deliveries t = some (n, u)) :
    (∀ r, r ∈ u.rows ↔ r ∈ t.rows ∧ r ∉ choice.batch t) ∧
      (∀ r ∈ choice.batch t, referenced deliveries r = false) ∧
      (n = 0 → choice.batch t = []) := by
  unfold purgeOnce purgeBatchWithTimeout at h
  split_ifs at h with hrefused
  cases h
  have hin : ∀ {r}, r ∈ t.rows → (inBatch (choice.batch t) r = true ↔ r ∈ choice.batch t) :=
    inBatch_iff (choice.locked t)
  refine ⟨fun r => ?_, fun r hr => ?_, fun hzero => ?_⟩
  · rw [Table.mem_delete]
    refine and_congr_right fun hr => ?_
    rw [← hin hr, Bool.not_eq_true]
  · have ht := ((choice.locked t).eligible r hr).1
    by_contra href
    refine hrefused (List.any_eq_true.2 ⟨r, ht, ?_⟩)
    rw [Bool.and_eq_true, hin ht]
    exact ⟨hr, by simpa using href⟩
  · rw [List.length_eq_zero_iff, List.filter_eq_nil_iff] at hzero
    by_contra hne
    obtain ⟨r, hr⟩ := List.exists_mem_of_ne_nil _ hne
    have ht := ((choice.locked t).eligible r hr).1
    exact hzero r ht ((hin ht).2 hr)

/-! ## Batches in a row -/

/-- What is gone from `t` in `u` was eligible and not referenced, and is not younger
than what is eligible in `u`. -/
structure Purged (cutoff : Time) (deliveries : DeliveryTable) (t u : OutboxTable) : Prop where
  subset : ∀ r ∈ u.rows, r ∈ t.rows
  eligible : ∀ r ∈ t.rows, r ∉ u.rows → buildPurgeFilter cutoff r = true
  unreferenced : ∀ r ∈ t.rows, r ∉ u.rows → referenced deliveries r = false
  oldest : ∀ r ∈ t.rows, r ∉ u.rows → ∀ r' ∈ u.rows, buildPurgeFilter cutoff r' = true →
    dispatchedBefore r r'

theorem Purged.refl (t : OutboxTable) : Purged cutoff deliveries t t :=
  ⟨fun _ h => h, fun _ h h' => absurd h h', fun _ h h' => absurd h h', fun _ h h' => absurd h h'⟩

theorem Purged.step {t u v : OutboxTable} {n : Nat} (h : Purged cutoff deliveries t u)
    (hbatch : purgeOnce choice deliveries u = some (n, v)) : Purged cutoff deliveries t v := by
  obtain ⟨hmem, hfree, -⟩ := purgeOnce_some hbatch
  have hlocked := choice.locked u
  have hwhere : ∀ r ∈ t.rows, r ∉ v.rows → r ∉ u.rows ∨ r ∈ choice.batch u := fun r _ hgone => by
    by_contra hneither
    rw [not_or, not_not] at hneither
    exact hgone ((hmem r).2 hneither)
  refine ⟨fun r hr => h.subset r ((hmem r).1 hr).1, fun r hr hgone => ?_, fun r hr hgone => ?_,
    fun r hr hgone r' hr' helig => ?_⟩
  · rcases hwhere r hr hgone with hearlier | hnow
    · exact h.eligible r hr hearlier
    · exact (hlocked.eligible r hnow).2
  · rcases hwhere r hr hgone with hearlier | hnow
    · exact h.unreferenced r hr hearlier
    · exact hfree r hnow
  · obtain ⟨hin, hout⟩ := (hmem r').1 hr'
    rcases hwhere r hr hgone with hearlier | hnow
    · exact h.oldest r hr hearlier r' hin helig
    · exact hlocked.oldest r hnow r' hin helig hout

theorem purged_tableAfter (t : OutboxTable) (n : Nat) :
    Purged cutoff deliveries t (tableAfter choice deliveries t n) := by
  induction n with
  | zero => exact Purged.refl t
  | succ n ih =>
    rw [tableAfter]
    cases hbatch : purgeOnce choice deliveries (tableAfter choice deliveries t n) with
    | none => exact ih
    | some purged => exact ih.step hbatch

/-! ## The run -/

variable {refusal : BatchError} {deadlineAt : Option Nat} {now : Nat → Nat} {t : OutboxTable}

theorem outboxPass_ok {i n : Nat}
    (h : (outboxPass choice deliveries refusal deadlineAt now t).purgeBatch i = .ok n) :
    ∃ u, purgeOnce choice deliveries (tableAfter choice deliveries t i) = some (n, u) ∧
      tableAfter choice deliveries t (i + 1) = u := by
  simp only [outboxPass] at h
  cases hbatch : purgeOnce choice deliveries (tableAfter choice deliveries t i) with
  | none =>
    rw [hbatch] at h
    cases h
  | some purged =>
    rw [hbatch] at h
    cases h
    refine ⟨purged.2, rfl, ?_⟩
    rw [tableAfter, hbatch]
    rfl

theorem outboxPass_error {i : Nat} {decision : SweepBatchErrorDecision}
    (h : (outboxPass choice deliveries refusal deadlineAt now t).purgeBatch i = .error decision) :
    purgeOnce choice deliveries (tableAfter choice deliveries t i) = none := by
  simp only [outboxPass] at h
  cases hbatch : purgeOnce choice deliveries (tableAfter choice deliveries t i) with
  | none => rfl
  | some purged =>
    rw [hbatch] at h
    cases h

/-- The table a run leaves. -/
def swept (choice : BatchChoice cutoff batchSize) (deliveries : DeliveryTable)
    (refusal : BatchError) (deadlineAt : Option Nat) (now : Nat → Nat) (t : OutboxTable) :
    OutboxTable :=
  tableAfter choice deliveries t
    (runBatchedSweep (outboxPass choice deliveries refusal deadlineAt now t) false).completed.length

/-- A run that meets neither its budget nor the cap leaves nothing to delete, or a
referenced event in the batch the next run begins with; and it deletes from the oldest
on, nothing else. -/
theorem outbox_swept (choice : BatchChoice cutoff batchSize) (deliveries : DeliveryTable)
    (refusal : BatchError) (deadlineAt : Option Nat) (now : Nat → Nat) (t : OutboxTable)
    (hsize : 0 < batchSize)
    (hrun : Untruncated
      (runBatchedSweep (outboxPass choice deliveries refusal deadlineAt now t) false)) :
    Purged cutoff deliveries t (swept choice deliveries refusal deadlineAt now t) ∧
      ((∀ r ∈ (swept choice deliveries refusal deadlineAt now t).rows,
          buildPurgeFilter cutoff r = false) ∨
        ∃ r ∈ choice.batch (swept choice deliveries refusal deadlineAt now t),
          referenced deliveries r = true) := by
  refine ⟨purged_tableAfter t _, ?_⟩
  obtain ⟨k, -, ⟨hempty, hlen⟩ | ⟨⟨decision, hfail⟩, hlen⟩⟩ :=
    end_sweepLoop (Nat.zero_add MAX_BATCHES) hrun
  · left
    rw [Nat.zero_add] at hempty
    obtain ⟨u, hbatch, hnext⟩ := outboxPass_ok hempty
    obtain ⟨hmem, -, hnil⟩ := purgeOnce_some hbatch
    have hlocked := choice.locked (tableAfter choice deliveries t k)
    rw [hnil rfl] at hlocked
    intro r hr
    have hr' : r ∈ (tableAfter choice deliveries t (k + 1)).rows := by
      rw [← hlen]
      exact hr
    rw [hnext] at hr'
    exact hlocked.eligible_of_nil hsize r ((hmem r).1 hr').1
  · right
    rw [Nat.zero_add] at hfail
    have hswept : swept choice deliveries refusal deadlineAt now t =
        tableAfter choice deliveries t k := by
      rw [← hlen]
      rfl
    rw [hswept]
    exact purgeOnce_none (outboxPass_error hfail)

end Batches

/-! ## Two events -/

def dispatchedEvent (id : String) (dispatchedAt : Time) : OutboxRow :=
  { id, eventType := "team.created", aggregateId := "t", aggregateType := "team"
    organizationId := none, payload := .null, requestId := none, occurredAt := 0
    dispatchedAt := some dispatchedAt, attempts := 1, lastError := none, nextAttemptAt := none
    deadAt := none, deliveries := [] }

def olderAndYounger : OutboxTable := ⟨[dispatchedEvent "older" 0, dispatchedEvent "younger" 1], by decide⟩

/-- One delivery, of the event. -/
def deliveryOf (outboxEventId : String) : DeliveryTable :=
  ⟨[{ id := "d", endpointId := "e", outboxEventId, eventType := "team.created", payload := .null
      status := .success, attempts := 1, nextAttemptAt := none, lastError := none
      lastResponseStatus := some 200, idempotencyKey := "k", createdAt := 2 }],
    List.nodup_singleton _⟩

def tableOrder (batchSize : Nat) : BatchChoice 5 batchSize :=
  ⟨oldestFirst 5 batchSize, lockedBatch_oldestFirst 5 batchSize⟩

def fkViolation : BatchError :=
  ⟨"update or delete on table \"outbox_event\" violates foreign key constraint", some "23503"⟩

/-- The older one goes; the younger one is referenced and ends the run. -/
theorem outbox_swept_older :
    Purged 5 (deliveryOf "younger") olderAndYounger
        (swept (tableOrder 1) (deliveryOf "younger") fkViolation none (fun _ => 0)
          olderAndYounger) := by
  refine (outbox_swept (tableOrder 1) (deliveryOf "younger") fkViolation none (fun _ => 0)
    olderAndYounger (by decide) fun result hresult => ?_).1
  have hend : (runBatchedSweep (outboxPass (tableOrder 1) (deliveryOf "younger") fkViolation none
      (fun _ => 0) olderAndYounger) false).result = some ⟨1, 1, .batchError⟩ := by decide
  rw [hend] at hresult
  cases hresult
  rfl

/-- The older one is referenced, and both are in one batch. -/
theorem younger_left :
    Untruncated (runBatchedSweep (outboxPass (tableOrder 2) (deliveryOf "older") fkViolation none
        (fun _ => 0) olderAndYounger) false) ∧
      ¬∀ r ∈ olderAndYounger.rows, buildPurgeFilter 5 r = true →
        referenced (deliveryOf "older") r = false →
        r ∉ (swept (tableOrder 2) (deliveryOf "older") fkViolation none (fun _ => 0)
          olderAndYounger).rows := by
  constructor
  · intro result hresult
    have hend : (runBatchedSweep (outboxPass (tableOrder 2) (deliveryOf "older") fkViolation none
        (fun _ => 0) olderAndYounger) false).result = some ⟨0, 0, .batchError⟩ := by decide
    rw [hend] at hresult
    cases hresult
    rfl
  · intro hall
    have hnone : (runBatchedSweep (outboxPass (tableOrder 2) (deliveryOf "older") fkViolation none
        (fun _ => 0) olderAndYounger) false).completed.length = 0 := by decide
    refine hall (dispatchedEvent "younger" 1) (List.mem_cons_of_mem _ List.mem_cons_self)
      (by decide) (by decide) ?_
    rw [swept, hnone]
    exact List.mem_cons_of_mem _ List.mem_cons_self

end CleanStack.Sweep
