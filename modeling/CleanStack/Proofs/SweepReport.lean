import CleanStack.Sweep.BatchedSweep

/-!
# What a pass reports

The counts are those of the completed batches on every way out. The stop reason is
right on every way out but one: the loop that is left because its last permitted
batch found nothing has also reached the cap, and the check below it takes the one
for the other.

What is said of a pass by itself is said of a run that goes through it among
others: `pass_run`.
-/

namespace CleanStack.Sweep

open CleanStack.Lib

variable {opts : RunBatchedSweepOptions}

/-- What the completed batches deleted, one after the other. -/
def BatchedRun.completed (run : BatchedRun) : List Nat := run.batches.filterMap Except.toOption

/-! ## The loop, a batch at a time -/

section Steps

variable {left totalDeleted batchCount : Nat}

theorem sweepLoop_spent (h : opts.spent batchCount = true) :
    sweepLoop opts (left + 1) totalDeleted batchCount =
      ⟨[], some (report totalDeleted batchCount .budget)⟩ := by
  rw [sweepLoop, if_pos h]

theorem sweepLoop_throws (h : ¬opts.spent batchCount = true)
    (hbatch : opts.purgeBatch batchCount = .error .throws) :
    sweepLoop opts (left + 1) totalDeleted batchCount = ⟨[.error .throws], none⟩ := by
  rw [sweepLoop, if_neg h, hbatch]

theorem sweepLoop_breaks (h : ¬opts.spent batchCount = true)
    (hbatch : opts.purgeBatch batchCount = .error .breaks) :
    sweepLoop opts (left + 1) totalDeleted batchCount =
      ⟨[.error .breaks], some (report totalDeleted batchCount .batchError)⟩ := by
  rw [sweepLoop, if_neg h, hbatch]

theorem sweepLoop_empty (h : ¬opts.spent batchCount = true)
    (hbatch : opts.purgeBatch batchCount = .ok 0) :
    sweepLoop opts (left + 1) totalDeleted batchCount =
      ⟨[.ok 0], some (report totalDeleted (batchCount + 1) .exhausted)⟩ := by
  rw [sweepLoop, if_neg h, hbatch]
  rfl

theorem sweepLoop_again {n : Nat} (h : ¬opts.spent batchCount = true)
    (hbatch : opts.purgeBatch batchCount = .ok (n + 1)) :
    sweepLoop opts (left + 1) totalDeleted batchCount =
      { sweepLoop opts left (totalDeleted + (n + 1)) (batchCount + 1) with
        batches := .ok (n + 1) ::
          (sweepLoop opts left (totalDeleted + (n + 1)) (batchCount + 1)).batches } := by
  rw [sweepLoop, if_neg h, hbatch]
  rfl

end Steps

/-- The ways through one entry of the loop. -/
theorem batch_cases (opts : RunBatchedSweepOptions) (batchCount : Nat) :
    opts.spent batchCount = true ∨ (¬opts.spent batchCount = true ∧
      (opts.purgeBatch batchCount = .error .throws ∨
        opts.purgeBatch batchCount = .error .breaks ∨
        opts.purgeBatch batchCount = .ok 0 ∨ ∃ n, opts.purgeBatch batchCount = .ok (n + 1))) := by
  by_cases hspent : opts.spent batchCount = true
  · exact .inl hspent
  · refine .inr ⟨hspent, ?_⟩
    rcases opts.purgeBatch batchCount with (_ | _) | (_ | n)
    · exact .inr (.inl rfl)
    · exact .inl rfl
    · exact .inr (.inr (.inl rfl))
    · exact .inr (.inr (.inr ⟨n, rfl⟩))

/-- The head of the loop and what follows a batch are those of the runs that interleave. -/
theorem sweepLoop_turn {left totalDeleted batchCount deadlineAt : Nat}
    (hdeadline : opts.deadlineAt = some deadlineAt) (hleft : batchCount + left = MAX_BATCHES) :
    (∀ result, loopHead (opts.now batchCount) deadlineAt totalDeleted batchCount = some result →
      sweepLoop opts left totalDeleted batchCount = ⟨[], some result⟩) ∧
    (loopHead (opts.now batchCount) deadlineAt totalDeleted batchCount = none →
      (afterBatch totalDeleted batchCount (opts.purgeBatch batchCount) = .throws →
        sweepLoop opts left totalDeleted batchCount = ⟨[opts.purgeBatch batchCount], none⟩) ∧
      (∀ result, afterBatch totalDeleted batchCount (opts.purgeBatch batchCount) = .stop result →
        sweepLoop opts left totalDeleted batchCount =
          ⟨[opts.purgeBatch batchCount], some result⟩) ∧
      ∀ total count, afterBatch totalDeleted batchCount (opts.purgeBatch batchCount) =
          .again total count →
        sweepLoop opts left totalDeleted batchCount =
          { sweepLoop opts (left - 1) total count with
            batches := opts.purgeBatch batchCount ::
              (sweepLoop opts (left - 1) total count).batches }) := by
  have hspent : opts.spent batchCount = decide (deadlineAt ≤ opts.now batchCount) := by
    rw [RunBatchedSweepOptions.spent, hdeadline, Option.any_some]
  cases left with
  | zero =>
    have hcap : ¬batchCount < MAX_BATCHES := by omega
    rw [loopHead, if_neg hcap]
    refine ⟨fun result h => ?_, fun h => (by cases h)⟩
    cases h
    rw [sweepLoop, report, if_pos ⟨rfl, by omega⟩]
  | succ left =>
    have hmore : batchCount < MAX_BATCHES := by omega
    rw [loopHead, if_pos hmore]
    by_cases hdue : deadlineAt ≤ opts.now batchCount
    · rw [if_pos hdue]
      refine ⟨fun result h => ?_, fun h => (by cases h)⟩
      cases h
      rw [sweepLoop_spent (by rw [hspent]; exact decide_eq_true hdue)]
      rfl
    · rw [if_neg hdue]
      refine ⟨fun result h => (by cases h), fun _ => ?_⟩
      have hopen : ¬opts.spent batchCount = true := by
        rw [hspent, decide_eq_true_eq]
        exact hdue
      rcases batch_cases opts batchCount with h | ⟨-, hbatch | hbatch | hbatch | ⟨n, hbatch⟩⟩
      · exact absurd h hopen
      · rw [hbatch]
        exact ⟨fun _ => sweepLoop_throws hopen hbatch, fun _ h => (by cases h),
          fun _ _ h => (by cases h)⟩
      · rw [hbatch]
        refine ⟨fun h => (by cases h), fun result h => ?_, fun _ _ h => (by cases h)⟩
        cases h
        rw [sweepLoop_breaks hopen hbatch]
        rfl
      · rw [hbatch]
        refine ⟨fun h => (by cases h), fun result h => ?_, fun _ _ h => (by cases h)⟩
        cases h
        rw [sweepLoop_empty hopen hbatch, report]
        simp
      · rw [hbatch]
        refine ⟨fun h => (by cases h), fun _ h => (by cases h), fun total count h => ?_⟩
        cases h
        exact sweepLoop_again hopen hbatch

/-! ## The pass of a run -/

/-- A run once the pass it was in has ended. -/
def SweepRun.afterPass (run : SweepRun) : Option SweepRunResult → SweepRun
  | some result => run.passEnded result
  | none => { run with phase := .releasing true }

/-- A run once a batch of its pass has been answered. -/
def SweepRun.afterPurge (run : SweepRun) : BatchNext → SweepRun
  | .again totalDeleted batchCount => { run with phase := .between totalDeleted batchCount }
  | .stop result => run.passEnded result
  | .throws => { run with phase := .releasing true }

section Pass

variable {deadlineMs i : Nat} {run : SweepRun} {s : SweepState} {totalDeleted batchCount : Nat}

/-- The clock goes on to what the head of the loop is to see. -/
theorem pass_turn (deadlineMs : Nat) (hdry : run.dryRun = false)
    (hrun : s.runs[i]? = some { run with phase := .between totalDeleted batchCount }) {now : Nat}
    (hnow : dateNow s.clock ≤ now) :
    ∃ m, exec (sweepStep deadlineMs) s [.wait (dateOf now - s.clock), .turn i] = some m ∧
      dateNow m.clock = now ∧
      m.runs[i]? = some (turn deadlineMs now { run with phase := .between totalDeleted batchCount }
        totalDeleted batchCount) := by
  have hclock : dateNow (s.clock + (dateOf now - s.clock)) = now := by
    unfold dateNow at hnow
    unfold dateNow dateOf
    omega
  refine ⟨{ s with clock := s.clock + (dateOf now - s.clock) }.setRun i
    (turn deadlineMs now { run with phase := .between totalDeleted batchCount } totalDeleted
      batchCount), ?_, hclock, List.getElem?_set_self (List.getElem?_eq_some_iff.1 hrun).1⟩
  simp only [exec, sweepStep, Option.bind_some, hrun, hdry, Bool.false_and, Bool.false_eq_true,
    if_false, hclock]

theorem pass_purged (deadlineMs : Nat) (outcome : Except SweepBatchErrorDecision Nat)
    (hrun : s.runs[i]? = some { run with phase := .batching totalDeleted batchCount }) :
    sweepStep deadlineMs s (.purged i outcome) =
      some (s.setRun i (run.afterPurge (afterBatch totalDeleted batchCount outcome))) := by
  simp only [sweepStep, hrun, Option.bind_some]
  cases afterBatch totalDeleted batchCount outcome <;> rfl

/-- A batch that was not the last one is counted. -/
theorem count_of_again {outcome : Except SweepBatchErrorDecision Nat} {total count : Nat}
    (h : afterBatch totalDeleted batchCount outcome = .again total count) :
    count = batchCount + 1 := by
  rcases outcome with (_ | _) | (_ | n)
  · cases h
  · cases h
  · cases h
  · cases h
    rfl

/-- A run left alone goes through its pass as `runBatchedSweep` does by itself. -/
theorem pass_run (hdry : run.dryRun = false) (hpasses : run.passes.isEmpty = false)
    (hdeadline : opts.deadlineAt = some (run.startMs + deadlineMs)) (hmono : Monotone opts.now)
    {left : Nat} (hleft : batchCount + left = MAX_BATCHES)
    (hrun : s.runs[i]? = some { run with phase := .between totalDeleted batchCount })
    (hnow : dateNow s.clock ≤ opts.now batchCount) :
    ∃ es t, exec (sweepStep deadlineMs) s es = some t ∧
      t.runs[i]? = some (run.afterPass (sweepLoop opts left totalDeleted batchCount).result) := by
  induction left generalizing totalDeleted batchCount s with
  | zero =>
      obtain ⟨m, hm, -, hturned⟩ := pass_turn deadlineMs hdry hrun hnow
      obtain ⟨hhead, -⟩ := @sweepLoop_turn opts _ totalDeleted _ _ hdeadline hleft
      have hcap : loopHead (opts.now batchCount) (run.startMs + deadlineMs) totalDeleted
          batchCount = some ⟨totalDeleted, batchCount, .batchCap⟩ := if_neg (by omega)
      refine ⟨_, m, hm, ?_⟩
      rw [hturned, turn, hpasses, if_neg Bool.false_ne_true, hcap, hhead _ hcap]
      rfl
  | succ left ih =>
      obtain ⟨m, hm, hclock, hturned⟩ := pass_turn deadlineMs hdry hrun hnow
      obtain ⟨hhead, hbatch⟩ := @sweepLoop_turn opts _ totalDeleted _ _ hdeadline hleft
      rw [turn, hpasses, if_neg Bool.false_ne_true] at hturned
      cases hstop : loopHead (opts.now batchCount) (run.startMs + deadlineMs) totalDeleted
          batchCount with
      | some result =>
          refine ⟨_, m, hm, ?_⟩
          rw [hturned, hstop, hhead _ hstop]
          rfl
      | none =>
          obtain ⟨hthrows, hends, hagain⟩ := hbatch hstop
          rw [hstop] at hturned
          have hpurged : exec (sweepStep deadlineMs) s
              ([.wait (dateOf (opts.now batchCount) - s.clock), .turn i] ++
                [.purged i (opts.purgeBatch batchCount)]) = some (m.setRun i
                  (run.afterPurge (afterBatch totalDeleted batchCount
                    (opts.purgeBatch batchCount)))) :=
            exec_snoc hm (pass_purged deadlineMs _ hturned)
          have hset : ∀ run', (m.setRun i run').runs[i]? = some run' := fun run' =>
            List.getElem?_set_self (List.getElem?_eq_some_iff.1 hturned).1
          cases hafter : afterBatch totalDeleted batchCount (opts.purgeBatch batchCount) with
          | throws =>
              rw [hafter] at hpurged
              refine ⟨_, _, hpurged, ?_⟩
              rw [hset, hthrows hafter]
              rfl
          | stop result =>
              rw [hafter] at hpurged
              refine ⟨_, _, hpurged, ?_⟩
              rw [hset, hends result hafter]
              rfl
          | again total count =>
              rw [hafter] at hpurged
              have hcount := count_of_again hafter
              subst hcount
              have hlater : dateNow (m.setRun i { run with
                  phase := .between total (batchCount + 1) }).clock ≤ opts.now (batchCount + 1) :=
                hclock.le.trans (hmono (Nat.le_succ batchCount))
              obtain ⟨es, t, ht, hended⟩ := ih (by omega) (hset _) hlater
              refine ⟨_, t, exec_trans hpurged ht, ?_⟩
              rw [hended, hagain _ _ hafter]
              rfl

end Pass

/-! ## Counts -/

theorem length_sweepLoop (left totalDeleted batchCount : Nat) :
    (sweepLoop opts left totalDeleted batchCount).batches.length ≤ left := by
  induction left generalizing totalDeleted batchCount with
  | zero => exact le_rfl
  | succ left ih =>
    rcases batch_cases opts batchCount with h | ⟨h, hbatch | hbatch | hbatch | ⟨n, hbatch⟩⟩
    · rw [sweepLoop_spent h]
      exact Nat.zero_le _
    · rw [sweepLoop_throws h hbatch]
      exact Nat.succ_pos _
    · rw [sweepLoop_breaks h hbatch]
      exact Nat.succ_pos _
    · rw [sweepLoop_empty h hbatch]
      exact Nat.succ_pos _
    · rw [sweepLoop_again h hbatch]
      exact Nat.succ_le_succ (ih _ _)

theorem counts_sweepLoop {left totalDeleted batchCount : Nat} {result : SweepRunResult}
    (hresult : (sweepLoop opts left totalDeleted batchCount).result = some result) :
    result.deleted = totalDeleted + (sweepLoop opts left totalDeleted batchCount).completed.sum ∧
      result.batchCount =
        batchCount + (sweepLoop opts left totalDeleted batchCount).completed.length := by
  induction left generalizing totalDeleted batchCount with
  | zero =>
    cases hresult
    exact ⟨rfl, rfl⟩
  | succ left ih =>
    rcases batch_cases opts batchCount with h | ⟨h, hbatch | hbatch | hbatch | ⟨n, hbatch⟩⟩
    · rw [sweepLoop_spent h] at hresult ⊢
      cases hresult
      exact ⟨rfl, rfl⟩
    · rw [sweepLoop_throws h hbatch] at hresult
      cases hresult
    · rw [sweepLoop_breaks h hbatch] at hresult ⊢
      cases hresult
      exact ⟨rfl, rfl⟩
    · rw [sweepLoop_empty h hbatch] at hresult ⊢
      cases hresult
      exact ⟨rfl, rfl⟩
    · rw [sweepLoop_again h hbatch] at hresult ⊢
      obtain ⟨hdeleted, hcount⟩ := ih hresult
      have hcompleted : (BatchedRun.mk (.ok (n + 1) ::
          (sweepLoop opts left (totalDeleted + (n + 1)) (batchCount + 1)).batches)
          (sweepLoop opts left (totalDeleted + (n + 1)) (batchCount + 1)).result).completed =
          (n + 1) :: (sweepLoop opts left (totalDeleted + (n + 1)) (batchCount + 1)).completed := rfl
      rw [hcompleted, List.sum_cons, List.length_cons]
      omega

/-! ## The stop reason -/

/-- The last batch that was run completed, and deleted nothing. -/
def BatchedRun.FoundNothing (run : BatchedRun) : Prop := run.batches.getLast? = some (.ok 0)

/-- Every permitted batch but the last deletes something, the last does not, and the
deadline comes before none of them. -/
def EmptyAtCap (opts : RunBatchedSweepOptions) (left batchCount : Nat) : Prop :=
  ∃ last, left = last + 1 ∧
    (∀ i ≤ last, ¬opts.spent (batchCount + i) = true) ∧
    (∀ i < last, ∃ n, opts.purgeBatch (batchCount + i) = .ok (n + 1)) ∧
    opts.purgeBatch (batchCount + last) = .ok 0

theorem emptyAtCap_again {left batchCount n : Nat} (h : ¬opts.spent batchCount = true)
    (hbatch : opts.purgeBatch batchCount = .ok (n + 1)) :
    EmptyAtCap opts (left + 1) batchCount ↔ EmptyAtCap opts left (batchCount + 1) := by
  have hshift : ∀ i, batchCount + 1 + i = batchCount + (i + 1) := fun i => by omega
  constructor
  · rintro ⟨last, hlast, hspent, hfull, hempty⟩
    cases last with
    | zero =>
      rw [Nat.add_zero, hbatch] at hempty
      cases hempty
    | succ last =>
      refine ⟨last, Nat.succ.inj hlast, fun i hi => ?_, fun i hi => ?_, ?_⟩
      · rw [hshift]
        exact hspent _ (Nat.succ_le_succ hi)
      · rw [hshift]
        exact hfull _ (Nat.succ_lt_succ hi)
      · rw [hshift]
        exact hempty
  · rintro ⟨last, hlast, hspent, hfull, hempty⟩
    refine ⟨last + 1, by rw [hlast], fun i hi => ?_, fun i hi => ?_, ?_⟩
    · cases i with
      | zero => exact h
      | succ i =>
        rw [← hshift]
        exact hspent i (Nat.le_of_succ_le_succ hi)
    · cases i with
      | zero => exact ⟨n, hbatch⟩
      | succ i =>
        rw [← hshift]
        exact hfull i (Nat.lt_of_succ_lt_succ hi)
    · rw [← hshift]
      exact hempty

/-- Where the next batch does not delete anything more, only the last permitted one
can be empty at the cap. -/
theorem emptyAtCap_last {left batchCount : Nat}
    (hbatch : ∀ n, opts.purgeBatch batchCount ≠ .ok (n + 1)) :
    EmptyAtCap opts (left + 1) batchCount ↔
      left = 0 ∧ ¬opts.spent batchCount = true ∧ opts.purgeBatch batchCount = .ok 0 := by
  constructor
  · rintro ⟨last, hlast, hspent, hfull, hempty⟩
    cases last with
    | zero => exact ⟨Nat.succ.inj hlast, hspent 0 le_rfl, hempty⟩
    | succ last =>
      obtain ⟨n, hn⟩ := hfull 0 (Nat.succ_pos last)
      exact absurd hn (hbatch n)
  · rintro ⟨rfl, hspent, hempty⟩
    refine ⟨0, rfl, fun i hi => ?_, fun i hi => absurd hi (Nat.not_lt_zero i), hempty⟩
    rw [Nat.le_zero.1 hi]
    exact hspent

theorem report_exhausted {totalDeleted batchCount : Nat} {reason : SweepStopReason} :
    (report totalDeleted batchCount reason).stopReason = .exhausted ↔
      reason = .exhausted ∧ batchCount < MAX_BATCHES := by
  unfold report
  split_ifs with hcap
  · exact ⟨fun h => (by cases h), fun h => absurd hcap.2 (Nat.not_le.2 h.2)⟩
  · exact ⟨fun h => ⟨h, Nat.lt_of_not_le fun hle => hcap ⟨h, hle⟩⟩, And.left⟩

theorem foundNothing_cons {n : Nat} {batches : List (Except SweepBatchErrorDecision Nat)}
    {result : Option SweepRunResult} :
    (BatchedRun.mk (.ok (n + 1) :: batches) result).FoundNothing ↔
      (BatchedRun.mk batches result).FoundNothing := by
  unfold BatchedRun.FoundNothing
  rcases batches with _ | ⟨outcome, batches⟩
  · exact ⟨fun h => (by cases h), fun h => (by cases h)⟩
  · rw [List.getLast?_cons_cons]

theorem exhausted_sweepLoop {left totalDeleted batchCount : Nat}
    (hleft : batchCount + left = MAX_BATCHES) :
    (∀ result, (sweepLoop opts left totalDeleted batchCount).result = some result →
      (result.stopReason = .exhausted ↔
        (sweepLoop opts left totalDeleted batchCount).FoundNothing)) ↔
      ¬EmptyAtCap opts left batchCount := by
  induction left generalizing totalDeleted batchCount with
  | zero =>
    refine ⟨fun _ h => ?_, fun _ result hresult => ?_⟩
    · obtain ⟨last, hlast, -⟩ := h
      cases hlast
    · cases hresult
      rw [report_exhausted]
      exact ⟨fun h => by omega, fun h => (by cases h)⟩
  | succ left ih =>
    rcases batch_cases opts batchCount with h | ⟨h, hbatch | hbatch | hbatch | ⟨n, hbatch⟩⟩
    · have hnone : ¬EmptyAtCap opts (left + 1) batchCount := fun hempty => by
        obtain ⟨_, _, hspent, -⟩ := hempty
        exact hspent 0 (Nat.zero_le _) h
      refine ⟨fun _ => hnone, fun _ result hresult => ?_⟩
      rw [sweepLoop_spent h] at hresult ⊢
      cases hresult
      rw [report_exhausted]
      exact ⟨fun h => (by cases h.1), fun h => (by cases h)⟩
    · rw [emptyAtCap_last (fun n hn => by rw [hbatch] at hn; cases hn)]
      refine ⟨fun _ hempty => ?_, fun _ result hresult => ?_⟩
      · rw [hbatch] at hempty
        cases hempty.2.2
      · rw [sweepLoop_throws h hbatch] at hresult
        cases hresult
    · rw [emptyAtCap_last (fun n hn => by rw [hbatch] at hn; cases hn)]
      refine ⟨fun _ hempty => ?_, fun _ result hresult => ?_⟩
      · rw [hbatch] at hempty
        cases hempty.2.2
      · rw [sweepLoop_breaks h hbatch] at hresult ⊢
        cases hresult
        rw [report_exhausted]
        exact ⟨fun h => (by cases h.1), fun h => (by cases h)⟩
    · -- the empty batch: right exactly where one more was permitted
      rw [emptyAtCap_last (fun n hn => by rw [hbatch] at hn; cases hn), sweepLoop_empty h hbatch]
      refine ⟨fun hright hempty => ?_, fun hmore result hresult => ?_⟩
      · have hexhausted := (hright _ rfl).2 rfl
        rw [report_exhausted] at hexhausted
        omega
      · cases hresult
        rw [report_exhausted]
        refine ⟨fun _ => rfl, fun _ => ⟨rfl, ?_⟩⟩
        by_contra hcap
        exact hmore ⟨by omega, h, hbatch⟩
    · rw [emptyAtCap_again h hbatch, ← @ih (totalDeleted + (n + 1)) (batchCount + 1) (by omega),
        sweepLoop_again h hbatch]
      simp only [foundNothing_cons]

/-! ## The report -/

/-- What the report of a pass promises. -/
structure Reported (run : BatchedRun) : Prop where
  batches : run.batches.length ≤ MAX_BATCHES
  counts : ∀ result, run.result = some result →
    result.deleted = run.completed.sum ∧ result.batchCount = run.completed.length
  exhausted : ∀ result, run.result = some result →
    (result.stopReason = .exhausted ↔ run.FoundNothing)

/-- The report is right exactly when the pass does not find nothing in the last batch
it is permitted. -/
theorem runBatchedSweep_reported (opts : RunBatchedSweepOptions) :
    Reported (runBatchedSweep opts false) ↔ ¬EmptyAtCap opts MAX_BATCHES 0 := by
  have hrun : runBatchedSweep opts false = sweepLoop opts MAX_BATCHES 0 0 := rfl
  rw [hrun]
  constructor
  · exact fun h => (exhausted_sweepLoop (Nat.zero_add _)).1 h.exhausted
  · intro h
    refine ⟨length_sweepLoop _ _ _, fun result hresult => ?_,
      (exhausted_sweepLoop (Nat.zero_add _)).2 h⟩
    obtain ⟨hdeleted, hcount⟩ := counts_sweepLoop hresult
    exact ⟨by omega, by omega⟩

/-- 999 rows, one in a batch. -/
def oneAtATime : RunBatchedSweepOptions :=
  { countEligible := none
    deadlineAt := none
    now := fun _ => 0
    purgeBatch := fun i => .ok (if i < 999 then 1 else 0) }

theorem oneAtATime_capped : ¬Reported (runBatchedSweep oneAtATime false) := by
  intro h
  have hresult : (runBatchedSweep oneAtATime false).result = some ⟨999, 1000, .batchCap⟩ := by
    decide +kernel
  have hlast : (runBatchedSweep oneAtATime false).FoundNothing := by
    unfold BatchedRun.FoundNothing
    decide +kernel
  exact absurd ((h.exhausted _ hresult).2 hlast) (by decide)

end CleanStack.Sweep
