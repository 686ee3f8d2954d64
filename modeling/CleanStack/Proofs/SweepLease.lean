import CleanStack.Lib.TimedLease
import CleanStack.Sweep.Runner

/-!
# One sweep of a label at a time

A run that has outlived its lease is not told so, and goes on to give back what
it no longer has. Two things keep it from the run that took over. The lease is
given back by its owner's name, so that the late release finds nothing; and the
deadline counts from before the lease was asked for and is half as long, so that
a run whose lease has ended has started its last batch.

The invariant is that whoever holds a lease that has not ended is the one the
row names, and that no two runs ever ask under one name.
-/

namespace CleanStack.Sweep

open CleanStack.Lib CleanStack.Drizzle
open CleanStack.Lib.TimedLease (Named Free)

/-- A run of the label has won the lease and not given it back. -/
def HoldsLease (s : SweepState) (label : String) (lease : SweepLease) : Prop :=
  ∃ (i : Nat) (run : SweepRun), s.runs[i]? = some run ∧ run.label = label ∧
    run.held? = some lease

structure Leases (deadlineMs : Nat) (s : SweepState) : Prop where
  named : ∀ label, Named SweepLease.lockedUntil s.clock (leaseOf s.locks label)
    (HoldsLease s label)
  asked : ∀ (i : Nat) run, s.runs[i]? = some run → run.phase.holds = true →
    ∃ lease, run.lease = some lease
  drawn : ∀ (i : Nat) run lease, s.runs[i]? = some run → run.lease = some lease →
    lease.owner ∈ s.drawn
  distinct : ∀ (i j : Nat) ri rj li lj, s.runs[i]? = some ri → s.runs[j]? = some rj →
    ri.lease = some li → rj.lease = some lj → li.owner = lj.owner → i = j
  started : ∀ (i : Nat) run, s.runs[i]? = some run → run.startMs ≤ dateNow s.clock
  lasting : ∀ (i : Nat) run lease, s.runs[i]? = some run → run.lease = some lease →
    dateOf (run.startMs + deadlineMs) ≤ lease.lockedUntil

section Step

variable {deadlineMs : Nat} {s t : SweepState} {e : SweepEvent} {i j : Nat}
  {run run' r r' : SweepRun} {lease lease' : SweepLease}

theorem held?_eq_some : run.held? = some lease ↔
    run.phase.holds = true ∧ run.lease = some lease := by
  unfold SweepRun.held?
  split
  · next h => simp [h]
  · next h => simp [h]

theorem dateNow_mono {now next : Time} (h : now ≤ next) : dateNow now ≤ dateNow next :=
  Nat.div_le_div_right h

theorem runs_setRun (h : (s.setRun i run').runs[j]? = some r') :
    (j = i ∧ r' = run') ∨ (j ≠ i ∧ s.runs[j]? = some r') :=
  getElem?_set_cases (show (s.runs.set i _)[j]? = some r' from h)

/-- What a run does not change once it has asked. -/
structure Goes (run run' : SweepRun) : Prop where
  label : run'.label = run.label
  startMs : run'.startMs = run.startMs
  lease : run'.lease = run.lease

/-- Every run after a step was there before it and has asked for the same. -/
def Keeps (s t : SweepState) : Prop :=
  ∀ (j : Nat) r', t.runs[j]? = some r' → ∃ r, s.runs[j]? = some r ∧ Goes r r'

theorem Keeps.refl (s : SweepState) : Keeps s s :=
  fun _ r hr => ⟨r, hr, rfl, rfl, rfl⟩

theorem Keeps.setRun (hrun : s.runs[i]? = some run) (hgoes : Goes run run') :
    Keeps s (s.setRun i run') := by
  intro j r' hr'
  rcases runs_setRun hr' with ⟨rfl, rfl⟩ | ⟨-, hold⟩
  · exact ⟨run, hrun, hgoes⟩
  · exact ⟨r', hold, rfl, rfl, rfl⟩

theorem Leases.keeps (hs : Leases deadlineMs s) (h : Keeps s t) (hclock : s.clock ≤ t.clock)
    (hdrawn : t.drawn = s.drawn)
    (hasked : ∀ (i : Nat) run, t.runs[i]? = some run → run.phase.holds = true →
      ∃ lease, run.lease = some lease)
    (hnamed : ∀ label, Named SweepLease.lockedUntil t.clock (leaseOf t.locks label)
      (HoldsLease t label)) : Leases deadlineMs t where
  named := hnamed
  asked := hasked
  drawn := by
    intro i run lease hrun hlease
    obtain ⟨r, hr, hgoes⟩ := h i run hrun
    rw [hdrawn]
    exact hs.drawn i r lease hr (hgoes.lease ▸ hlease)
  distinct := by
    intro i j ri rj li lj hri hrj hli hlj howner
    obtain ⟨ri₀, hri₀, hgoesi⟩ := h i ri hri
    obtain ⟨rj₀, hrj₀, hgoesj⟩ := h j rj hrj
    exact hs.distinct i j ri₀ rj₀ li lj hri₀ hrj₀ (hgoesi.lease ▸ hli) (hgoesj.lease ▸ hlj) howner
  started := by
    intro i run hrun
    obtain ⟨r, hr, hgoes⟩ := h i run hrun
    rw [hgoes.startMs]
    exact Nat.le_trans (hs.started i r hr) (dateNow_mono hclock)
  lasting := by
    intro i run lease hrun hlease
    obtain ⟨r, hr, hgoes⟩ := h i run hrun
    rw [hgoes.startMs]
    exact hs.lasting i r lease hr (hgoes.lease ▸ hlease)

/-- A run goes on, and holds nothing that it did not hold. -/
theorem Leases.goes (hs : Leases deadlineMs s) (hrun : s.runs[i]? = some run)
    (hgoes : Goes run run') (hholds : run'.phase.holds = true → run.phase.holds = true) :
    Leases deadlineMs (s.setRun i run') := by
  refine hs.keeps (Keeps.setRun hrun hgoes) (Nat.le_refl s.clock) rfl (fun j r' hr' hphase => ?_)
    fun label => (hs.named label).fewer fun lease hheld => ?_
  · rcases runs_setRun hr' with ⟨rfl, rfl⟩ | ⟨-, hold⟩
    · rw [hgoes.lease]
      exact hs.asked j run hrun (hholds hphase)
    · exact hs.asked j r' hold hphase
  obtain ⟨j, r', hr', hlabel, hhas⟩ := hheld
  rcases runs_setRun hr' with ⟨rfl, rfl⟩ | ⟨-, hold⟩
  · obtain ⟨hphase, hlease⟩ := held?_eq_some.1 hhas
    exact ⟨j, run, hrun, hgoes.label ▸ hlabel,
      held?_eq_some.2 ⟨hholds hphase, hgoes.lease ▸ hlease⟩⟩
  · exact ⟨j, r', hold, hlabel, hhas⟩

/-- A request is made, and asks for nothing yet. -/
theorem Leases.called (hs : Leases deadlineMs s) (hlease : run.lease = none)
    (hidle : run.phase.holds = false) (hstart : run.startMs = dateNow s.clock) :
    Leases deadlineMs { s with runs := s.runs ++ [run] } := by
  have hback : ∀ (j : Nat) r', (s.runs ++ [run])[j]? = some r' →
      s.runs[j]? = some r' ∨ r' = run := by
    intro j r' hr'
    rw [List.getElem?_append] at hr'
    split at hr'
    · exact .inl hr'
    · exact .inr (List.mem_singleton.1 (List.mem_of_getElem? hr'))
  have hasked : ∀ (j : Nat) r' lease, (s.runs ++ [run])[j]? = some r' →
      r'.lease = some lease → s.runs[j]? = some r' := by
    intro j r' lease hr' hsome
    rcases hback j r' hr' with hold | rfl
    · exact hold
    · rw [hlease] at hsome
      cases hsome
  refine ⟨fun label => ?_, ?_, ?_, ?_, ?_, ?_⟩
  · refine (hs.named label).fewer fun lease hheld => ?_
    obtain ⟨j, r', hr', hlabel, hhas⟩ := hheld
    exact ⟨j, r', hasked j r' lease hr' (held?_eq_some.1 hhas).2, hlabel, hhas⟩
  · intro j r' hr' hphase
    rcases hback j r' hr' with hold | rfl
    · exact hs.asked j r' hold hphase
    · rw [hidle] at hphase
      cases hphase
  · intro j r' lease hr' hsome
    exact hs.drawn j r' lease (hasked j r' lease hr' hsome) hsome
  · intro j k rj rk lj lk hrj hrk hlj hlk
    exact hs.distinct j k rj rk lj lk (hasked j rj lj hrj hlj) (hasked k rk lk hrk hlk) hlj hlk
  · intro j r' hr'
    rcases hback j r' hr' with hold | rfl
    · exact hs.started j r' hold
    · exact Nat.le_of_eq hstart
  · intro j r' lease hr' hsome
    exact hs.lasting j r' lease (hasked j r' lease hr' hsome) hsome

/-- A run draws an owner nobody has drawn, and the lease it asks for lasts past
its deadline. -/
theorem Leases.drawsOwner (hs : Leases deadlineMs s) (hrun : s.runs[i]? = some run) {owner : String}
    (hfresh : owner ∉ s.drawn) {lockedAt : Time} :
    Leases deadlineMs { s.setRun i { run with
        lease := some (leaseFor deadlineMs s.clock owner), phase := .asking lockedAt } with
      drawn := owner :: s.drawn } := by
  have hold : ∀ (j : Nat) r lease, s.runs[j]? = some r → r.lease = some lease →
      lease.owner ≠ owner :=
    fun j r lease hr hlease heq => hfresh (heq ▸ hs.drawn j r lease hr hlease)
  refine ⟨fun label => ?_, ?_, ?_, ?_, ?_, ?_⟩
  · refine (hs.named label).fewer fun lease hheld => ?_
    obtain ⟨j, r', hr', hlabel, hhas⟩ := hheld
    rcases runs_setRun hr' with ⟨-, rfl⟩ | ⟨-, hrold⟩
    · cases hhas
    · exact ⟨j, r', hrold, hlabel, hhas⟩
  · intro j r' hr' hphase
    rcases runs_setRun hr' with ⟨-, rfl⟩ | ⟨-, hrold⟩
    · exact ⟨_, rfl⟩
    · exact hs.asked j r' hrold hphase
  · intro j r' lease hr' hlease
    rcases runs_setRun hr' with ⟨-, rfl⟩ | ⟨-, hrold⟩
    · cases hlease
      exact List.mem_cons_self
    · exact List.mem_cons_of_mem owner (hs.drawn j r' lease hrold hlease)
  · intro j k rj rk lj lk hrj hrk hlj hlk howner
    rcases runs_setRun hrj with ⟨rfl, rfl⟩ | ⟨-, hrjold⟩
    · rcases runs_setRun hrk with ⟨rfl, -⟩ | ⟨-, hrkold⟩
      · rfl
      · cases hlj
        exact absurd howner.symm (hold k rk lk hrkold hlk)
    · rcases runs_setRun hrk with ⟨rfl, rfl⟩ | ⟨-, hrkold⟩
      · cases hlk
        exact absurd howner (hold j rj lj hrjold hlj)
      · exact hs.distinct j k rj rk lj lk hrjold hrkold hlj hlk howner
  · intro j r' hr'
    rcases runs_setRun hr' with ⟨-, rfl⟩ | ⟨-, hrold⟩
    · exact hs.started i run hrun
    · exact hs.started j r' hrold
  · intro j r' lease hr' hlease
    rcases runs_setRun hr' with ⟨-, rfl⟩ | ⟨-, hrold⟩
    · cases hlease
      have hstart := hs.started i run hrun
      refine Nat.mul_le_mul_right 1000 ?_
      show run.startMs + deadlineMs ≤ dateNow s.clock + deadlineMs * 2
      omega
    · exact hs.lasting j r' lease hrold hlease

/-- The upsert goes through only when every other holder is past its end. -/
theorem Leases.acquired (hs : Leases deadlineMs s) (hrun : s.runs[i]? = some run)
    (hlease : run.lease = some lease) {lockedAt : Time} {phase : SweepPhase}
    (hwon : (acquireSweepLease s.locks s.clock run.label lease lockedAt).2 = false →
      phase.holds = false) :
    Leases deadlineMs { s.setRun i { run with phase } with
      locks := (acquireSweepLease s.locks s.clock run.label lease lockedAt).1 } := by
  refine hs.keeps (Keeps.setRun hrun ⟨rfl, rfl, rfl⟩) (Nat.le_refl s.clock) rfl
    (fun j r' hr' hphase => ?_) fun label => ?_
  · rcases runs_setRun hr' with ⟨-, rfl⟩ | ⟨-, hold⟩
    · exact ⟨lease, hlease⟩
    · exact hs.asked j r' hold hphase
  have hback : ∀ (j : Nat) r', (s.setRun i { run with phase }).runs[j]? = some r' →
      ∀ held, r'.held? = some held → j = i ∧ r' = { run with phase } ∧ held = lease ∨
        s.runs[j]? = some r' := by
    intro j r' hr' held hheld
    rcases runs_setRun hr' with ⟨rfl, rfl⟩ | ⟨-, hold⟩
    · exact .inl ⟨rfl, rfl, Option.some.inj ((held?_eq_some.1 hheld).2.symm.trans hlease)⟩
    · exact .inr hold
  by_cases hfree : obtainable s.locks s.clock run.label = true
  · by_cases hlabel : run.label = label
    · subst hlabel
      show Named _ s.clock (leaseOf (acquireSweepLease s.locks s.clock run.label lease
        lockedAt).1 run.label) _
      rw [leaseOf_acquire hfree]
      refine (hs.named run.label).take (fun _ => expired_of_obtainable hfree) fun held hheld => ?_
      obtain ⟨j, r', hr', hlabel', hhas⟩ := hheld
      rcases hback j r' hr' held hhas with ⟨-, -, hsame⟩ | hold
      · exact .inr hsame
      · exact .inl ⟨j, r', hold, hlabel', hhas⟩
    · show Named _ s.clock (leaseOf (acquireSweepLease s.locks s.clock run.label lease
        lockedAt).1 label) _
      rw [leaseOf, find?_acquire_other hlabel]
      refine (hs.named label).fewer fun held hheld => ?_
      obtain ⟨j, r', hr', hlabel', hhas⟩ := hheld
      rcases hback j r' hr' held hhas with ⟨-, rfl, -⟩ | hold
      · exact absurd hlabel' hlabel
      · exact ⟨j, r', hold, hlabel', hhas⟩
  · rw [acquire_of_not_obtainable hfree] at hwon ⊢
    refine (hs.named label).fewer fun held hheld => ?_
    obtain ⟨j, r', hr', hlabel', hhas⟩ := hheld
    rcases hback j r' hr' held hhas with ⟨-, rfl, -⟩ | hold
    · have hphase := (held?_eq_some.1 hhas).1
      rw [hwon rfl] at hphase
      cases hphase
    · exact ⟨j, r', hold, hlabel', hhas⟩

/-- The lease given back is the one the run was known by. -/
theorem Leases.released (hs : Leases deadlineMs s) (hrun : s.runs[i]? = some run)
    (hlease : run.lease = some lease) {response : Option SweepResponse} {executed : Bool} :
    Leases deadlineMs { s.setRun i { run with phase := .over response } with
      locks := if executed then releaseSweepLease s.locks run.label lease.owner
        else s.locks } := by
  refine hs.keeps (Keeps.setRun hrun ⟨rfl, rfl, rfl⟩) (Nat.le_refl s.clock) rfl
    (fun j r' hr' hphase => ?_) fun label => ?_
  · rcases runs_setRun hr' with ⟨-, rfl⟩ | ⟨-, hold⟩
    · exact ⟨lease, hlease⟩
    · exact hs.asked j r' hold hphase
  have hfewer : ∀ held, HoldsLease (s.setRun i { run with phase := .over response }) label held →
      ∃ (j : Nat) (r : SweepRun), j ≠ i ∧ s.runs[j]? = some r ∧ r.label = label ∧
        r.held? = some held := by
    intro held hheld
    obtain ⟨j, r', hr', hlabel, hhas⟩ := hheld
    rcases runs_setRun hr' with ⟨-, rfl⟩ | ⟨hne, hold⟩
    · cases (held?_eq_some.1 hhas).1
    · exact ⟨j, r', hne, hold, hlabel, hhas⟩
  have hnamed : Named SweepLease.lockedUntil s.clock (leaseOf s.locks label)
      (HoldsLease (s.setRun i { run with phase := .over response }) label) := by
    refine (hs.named label).fewer fun held hheld => ?_
    obtain ⟨j, r, -, hr, hlabel, hhas⟩ := hfewer held hheld
    exact ⟨j, r, hr, hlabel, hhas⟩
  cases executed with
  | false => exact hnamed
  | true =>
      show Named _ s.clock (leaseOf (releaseSweepLease s.locks run.label lease.owner) label) _
      by_cases hlabel : run.label = label
      · subst hlabel
        cases hrow : s.locks.find? run.label with
        | none =>
            rw [leaseOf, releaseSweepLease, Table.find?_delete, hrow]
            rw [leaseOf, hrow] at hnamed
            exact hnamed
        | some row =>
            by_cases howner : row.owner = lease.owner
            · rw [leaseOf, find?_release_own hrow howner]
              refine hnamed.give (fun _ h => h) fun held hheld hlocked => ?_
              -- Nobody else goes by the owner of the row.
              obtain ⟨j, r, hne, hr, -, hhas⟩ := hfewer held hheld
              rw [leaseOf, hrow] at hlocked
              have hsame : held.owner = lease.owner := by
                rw [← Option.some.inj hlocked]
                exact howner
              exact absurd (hs.distinct j i r run held lease hr hrun (held?_eq_some.1 hhas).2
                hlease hsame) hne
            · rw [leaseOf, find?_release hrow howner, ← hrow]
              exact hnamed
      · rw [leaseOf, find?_release_other hlabel]
        exact hnamed

theorem goes_turn {now totalDeleted batchCount : Nat} :
    Goes run (turn deadlineMs now run totalDeleted batchCount) := by
  unfold turn
  split
  · exact ⟨rfl, rfl, rfl⟩
  · split
    · exact ⟨rfl, rfl, rfl⟩
    · exact ⟨rfl, rfl, rfl⟩

theorem Leases.step (hs : Leases deadlineMs s) (h : sweepStep deadlineMs s e = some t) :
    Leases deadlineMs t := by
  cases e with
  | call label passes dryRun =>
      cases h
      exact hs.called rfl rfl rfl
  | ask i owner =>
      obtain ⟨run, hrun, h⟩ := Option.bind_eq_some_iff.1 h
      split at h
      · next hcan =>
          cases h
          exact hs.drawsOwner hrun hcan.2
      · cases h
  | acquire i answered =>
      obtain ⟨run, hrun, h⟩ := Option.bind_eq_some_iff.1 h
      split at h
      · next lockedAt lease _ hlease =>
          obtain rfl := Option.some.inj h
          refine hs.acquired hrun hlease fun hlost => ?_
          rw [hlost]
          cases answered with
          | true => rfl
          | false => rfl
      · cases h
  | turn i =>
      obtain ⟨run, hrun, h⟩ := Option.bind_eq_some_iff.1 h
      split at h
      · next totalDeleted batchCount hphase =>
          split at h
          · cases h
          · cases h
            refine hs.goes hrun goes_turn fun _ => ?_
            rw [hphase]
            rfl
      · cases h
  | count i eligible =>
      obtain ⟨run, hrun, h⟩ := Option.bind_eq_some_iff.1 h
      split at h
      · next totalDeleted batchCount hphase =>
          have hholds : run.phase.holds = true := by
            rw [hphase]
            rfl
          split at h
          · cases h
            cases eligible with
            | some n => exact hs.goes hrun ⟨rfl, rfl, rfl⟩ fun _ => hholds
            | none => exact hs.goes hrun ⟨rfl, rfl, rfl⟩ fun _ => hholds
          · cases h
      · cases h
  | purged i outcome =>
      obtain ⟨run, hrun, h⟩ := Option.bind_eq_some_iff.1 h
      split at h
      · next totalDeleted batchCount hphase =>
          have hholds : run.phase.holds = true := by
            rw [hphase]
            rfl
          cases h
          cases afterBatch totalDeleted batchCount outcome with
          | again totalDeleted batchCount => exact hs.goes hrun ⟨rfl, rfl, rfl⟩ fun _ => hholds
          | stop result => exact hs.goes hrun ⟨rfl, rfl, rfl⟩ fun _ => hholds
          | throws => exact hs.goes hrun ⟨rfl, rfl, rfl⟩ fun _ => hholds
      · cases h
  | release i executed =>
      obtain ⟨run, hrun, h⟩ := Option.bind_eq_some_iff.1 h
      split at h
      · next failed lease _ hlease =>
          cases h
          exact hs.released hrun hlease
      · cases h
  | wait n =>
      cases h
      refine hs.keeps (Keeps.refl s) (Nat.le_add_right s.clock n) rfl hs.asked fun label => ?_
      exact (hs.named label).later (Nat.le_add_right s.clock n)

/-! ## What it comes to -/

/-- Two runs that hold a lease of one label, neither of which has ended, are one. -/
theorem Leases.unique (hs : Leases deadlineMs s) (hri : s.runs[i]? = some r)
    (hrj : s.runs[j]? = some r') (hlabel : r.label = r'.label) (hli : r.held? = some lease)
    (hlj : r'.held? = some lease') (hendi : s.clock ≤ lease.lockedUntil)
    (hendj : s.clock ≤ lease'.lockedUntil) : i = j := by
  have hsame : lease = lease' := (hs.named r.label).unique ⟨i, r, hri, rfl, hli⟩
    ⟨j, r', hrj, hlabel.symm, hlj⟩ hendi hendj
  exact hs.distinct i j r r' lease lease' hri hrj (held?_eq_some.1 hli).2 (held?_eq_some.1 hlj).2
    (congrArg SweepLease.owner hsame)

/-- Whoever is past the end of its lease is past its deadline. -/
theorem Leases.deadline_past (hs : Leases deadlineMs s) (hrun : s.runs[i]? = some run)
    (hlease : run.lease = some lease) (hended : lease.lockedUntil < s.clock) :
    run.startMs + deadlineMs ≤ dateNow s.clock :=
  le_dateNow (Nat.le_trans (hs.lasting i run lease hrun hlease) (Nat.le_of_lt hended))

theorem batch_started (h : sweepStep deadlineMs s (.turn i) = some t)
    (hrun' : t.runs[i]? = some run') (hbatch : run'.phase.batches = true) :
    ∃ run, s.runs[i]? = some run ∧ run.phase.holds = true ∧ run'.label = run.label ∧
      dateNow s.clock < run.startMs + deadlineMs := by
  obtain ⟨run, hrun, h⟩ := Option.bind_eq_some_iff.1 h
  split at h
  · next totalDeleted batchCount hphase =>
      split at h
      · cases h
      · cases h
        rcases runs_setRun hrun' with ⟨-, rfl⟩ | ⟨hne, -⟩
        · have hholds : run.phase.holds = true := by
            rw [hphase]
            rfl
          refine ⟨run, hrun, hholds, goes_turn.label, ?_⟩
          unfold turn at hbatch
          split at hbatch
          · cases hbatch
          · split at hbatch
            · cases hbatch
            · next hnone => exact loopHead_eq_none hnone
        · exact absurd rfl hne
  · cases h

/-- A batch starts before the deadline, which comes before the end of the lease,
and finds every other holder past both. -/
theorem Leases.batch_alone (hs : Leases deadlineMs s)
    (h : sweepStep deadlineMs s (.turn i) = some t) (hrun' : t.runs[i]? = some run')
    (hbatch : run'.phase.batches = true) :
    (∃ run lease, s.runs[i]? = some run ∧ run.held? = some lease ∧ s.clock < lease.lockedUntil) ∧
      ∀ (j : Nat) r lease, j ≠ i → s.runs[j]? = some r → r.label = run'.label →
        r.held? = some lease → lease.lockedUntil < s.clock ∧
          r.startMs + deadlineMs ≤ dateNow s.clock := by
  obtain ⟨run, hrun, hholds, hlabel, htime⟩ := batch_started h hrun' hbatch
  obtain ⟨lease, hlease⟩ := hs.asked i run hrun hholds
  have hheld : run.held? = some lease := held?_eq_some.2 ⟨hholds, hlease⟩
  have hlasts : s.clock < lease.lockedUntil :=
    Nat.lt_of_lt_of_le (dateNow_lt htime) (hs.lasting i run lease hrun hlease)
  refine ⟨⟨run, lease, hrun, hheld, hlasts⟩, fun j r lease' hne hr hsame hheld' => ?_⟩
  have hended : lease'.lockedUntil < s.clock := by
    by_cases hend : s.clock ≤ lease'.lockedUntil
    · exact absurd (hs.unique hr hrun (hsame.trans hlabel) hheld' hheld hend
        (Nat.le_of_lt hlasts)) hne
    · exact Nat.not_le.1 hend
  exact ⟨hended, hs.deadline_past hr (held?_eq_some.1 hheld').2 hended⟩

/-- What a run gives back is not the lease of another. -/
theorem Leases.release_spares (hs : Leases deadlineMs s) {executed : Bool}
    (h : sweepStep deadlineMs s (.release i executed) = some t) (hne : j ≠ i)
    (hr : s.runs[j]? = some r) (hlease : r.lease = some lease) {label : String}
    {row : SweepLockRow} (hrow : s.locks.find? label = some row)
    (howner : row.owner = lease.owner) : t.locks.find? label = some row := by
  obtain ⟨run, hrun, h⟩ := Option.bind_eq_some_iff.1 h
  split at h
  · next failed lease' _ hlease' =>
      cases h
      have hother : row.owner ≠ lease'.owner := fun hsame =>
        hne (hs.distinct j i r run lease lease' hr hrun hlease hlease' (howner.symm.trans hsame))
      cases executed with
      | false => exact hrow
      | true =>
          show (releaseSweepLease s.locks run.label lease'.owner).find? label = some row
          by_cases hlabel : run.label = label
          · subst hlabel
            exact find?_release hrow hother
          · rw [find?_release_other hlabel]
            exact hrow
  · cases h

theorem Leases.idle (h : s.runs = []) : Leases deadlineMs s := by
  have hnone : ∀ (i : Nat) run, s.runs[i]? ≠ some run := by
    intro i run hrun
    rw [h] at hrun
    cases hrun
  refine ⟨fun label lease hheld => ?_, ?_, ?_, ?_, ?_, ?_⟩
  · obtain ⟨i, run, hrun, -⟩ := hheld
    exact absurd hrun (hnone i run)
  · exact fun i run hrun => absurd hrun (hnone i run)
  · exact fun i run _ hrun => absurd hrun (hnone i run)
  · exact fun i _ run _ _ _ hrun => absurd hrun (hnone i run)
  · exact fun i run hrun => absurd hrun (hnone i run)
  · exact fun i run _ hrun => absurd hrun (hnone i run)

end Step

/-- One holder of a label whose lease has not ended; releases that spare the lease
of whoever took over; batches that start in time, and alone. -/
structure SweepsApart (deadlineMs : Nat) (s : SweepState) : Prop where
  unique : ∀ (i j : Nat) ri rj li lj, s.runs[i]? = some ri → s.runs[j]? = some rj →
    ri.label = rj.label → ri.held? = some li → rj.held? = some lj →
    s.clock ≤ li.lockedUntil → s.clock ≤ lj.lockedUntil → i = j
  release_spares : ∀ (i j : Nat) executed t rj lj label row,
    sweepStep deadlineMs s (.release i executed) = some t → j ≠ i →
    s.runs[j]? = some rj → rj.lease = some lj → s.locks.find? label = some row →
    row.owner = lj.owner → t.locks.find? label = some row
  batch_in_time : ∀ (i : Nat) t run', sweepStep deadlineMs s (.turn i) = some t →
    t.runs[i]? = some run' → run'.phase.batches = true →
    ∃ run lease, s.runs[i]? = some run ∧ run.held? = some lease ∧ s.clock < lease.lockedUntil
  batch_alone : ∀ (i j : Nat) t run' rj lj, sweepStep deadlineMs s (.turn i) = some t →
    t.runs[i]? = some run' → run'.phase.batches = true → j ≠ i → s.runs[j]? = some rj →
    rj.label = run'.label → rj.held? = some lj →
    lj.lockedUntil < s.clock ∧ rj.startMs + deadlineMs ≤ dateNow s.clock

theorem sweeps_apart {deadlineMs : Nat} {s₀ s : SweepState} {es : List SweepEvent}
    (hidle : s₀.runs = []) (h : exec (sweepStep deadlineMs) s₀ es = some s) :
    SweepsApart deadlineMs s := by
  have hs : Leases deadlineMs s :=
    runs_inv (fun _ _ _ hm hstep => hm.step hstep) (Leases.idle hidle) h
  constructor
  · intro i j ri rj li lj hri hrj hlabel hli hlj
    exact hs.unique hri hrj hlabel hli hlj
  · intro i j executed t rj lj label row hstep hne hrj hlj hrow howner
    exact hs.release_spares hstep hne hrj hlj hrow howner
  · intro i t run' hstep hrun' hbatch
    exact (hs.batch_alone hstep hrun' hbatch).1
  · intro i j t run' rj lj hstep hrun' hbatch hne hrj hlabel hlj
    exact (hs.batch_alone hstep hrun' hbatch).2 j rj lj hne hrj hlabel hlj

/-! ## A run on fixed inputs -/

def noSweeps : SweepState := { clock := 0, locks := Table.empty, drawn := [], runs := [] }

/-- The first run is still in its first batch when its lease ends, and the second
takes over. -/
def overrun : List SweepEvent :=
  [.call "sweep-outbox" ["outbox"] false, .call "sweep-outbox" ["outbox"] false,
    .ask 0 "u1", .acquire 0 true, .turn 0, .wait (181 * second),
    .ask 1 "u2", .acquire 1 true, .purged 0 (.ok 12), .turn 0, .turn 0]

theorem sweeps_apart_overrun : ∃ s, exec (sweepStep 90000) noSweeps overrun = some s ∧
    s.runs.map SweepRun.held? =
      [some ⟨"u1", 180 * second⟩, some ⟨"u2", 361 * second⟩] ∧ SweepsApart 90000 s := by
  have hrun : (exec (sweepStep 90000) noSweeps overrun).map
      (fun s => s.runs.map SweepRun.held?) =
        some [some ⟨"u1", 180 * second⟩, some ⟨"u2", 361 * second⟩] := by decide
  obtain ⟨s, hs, hheld⟩ := Option.map_eq_some_iff.1 hrun
  exact ⟨s, hs, hheld, sweeps_apart rfl hs⟩

end CleanStack.Sweep
