import CleanStack.Proofs.HandlerDelivery

/-!
# Where the rows of the outbox come from

Read forwards, a statement keeps the names a row has (`Evolves`). Read
backwards, it says what a row was made of: a row after a statement is a row from
before it, of the same type and organization, with its old names and those that
a settlement reported, or it is new and has none (`Stems`).

The claim is the other way in: a job that is new works from the record of a row
as it stood, all columns of it.
-/

namespace CleanStack.Outbox

open CleanStack.Lib CleanStack.Drizzle CleanStack.Kit Keyed

/-! ## What a row was made of -/

/-- Every row of `u` is a row of `t` with names that `N` allows of its id, or is
new, as `fresh` allows of its id. -/
def Stems (N : String → String → Prop) (fresh : String → Prop) (t u : OutboxTable) : Prop :=
  ∀ k r', u.find? k = some r' →
    (∃ r, t.find? k = some r ∧ r'.eventType = r.eventType ∧
      r'.organizationId = r.organizationId ∧
      ∀ name ∈ r'.deliveries.names, name ∈ r.deliveries.names ∨ N k name) ∨
    (t.find? k = none ∧ fresh k ∧ r'.deliveries = [])

section Stems

variable {N M : String → String → Prop} {fresh young : String → Prop} {t u v : OutboxTable}

theorem Stems.refl (t : OutboxTable) : Stems N fresh t t := fun _ r hr =>
  .inl ⟨r, hr, rfl, rfl, fun _ hname => .inl hname⟩

theorem Stems.weaken (h : Stems N fresh t u) (hN : ∀ k name, N k name → M k name)
    (hfresh : ∀ k, fresh k → young k) : Stems M young t u := by
  intro k r' hr'
  rcases h k r' hr' with ⟨r, hr, hty, horg, hnames⟩ | ⟨hnone, hnew, hdel⟩
  · refine .inl ⟨r, hr, hty, horg, fun name hname => ?_⟩
    rcases hnames name hname with hold | hadded
    · exact .inl hold
    · exact .inr (hN k name hadded)
  · exact .inr ⟨hnone, hfresh k hnew, hdel⟩

theorem Stems.update {p : OutboxRow → Bool} (f : OutboxRow → OutboxRow)
    (hkey : ∀ r, key (f r) = key r) (hty : ∀ r, (f r).eventType = r.eventType)
    (horg : ∀ r, (f r).organizationId = r.organizationId)
    (hnames : ∀ r name, p r = true → name ∈ (f r).deliveries.names →
      name ∈ r.deliveries.names ∨ N (key r) name) :
    Stems N fresh t (t.update p f hkey) := by
  intro k r' hr'
  rw [Table.find?_update] at hr'
  obtain ⟨r, hr, rfl⟩ := Option.map_eq_some_iff.1 hr'
  refine .inl ⟨r, hr, ?_⟩
  by_cases hp : p r = true
  · rw [if_pos hp, ← (Table.find?_eq_some.1 hr).2]
    exact ⟨hty r, horg r, fun name hname => hnames r name hp hname⟩
  · rw [if_neg hp]
    exact ⟨rfl, rfl, fun name hname => .inl hname⟩

/-- A row inserted after other statements is new to the table before them, since
they keep every row. -/
theorem Stems.enqueue {D : OutboxRow → Prop} {r : OutboxRow} (h : Stems N fresh t u)
    (hkept : Evolves D t u) (hdel : r.deliveries = []) (hfresh : fresh r.id) :
    Stems N fresh t (enqueue u r) := by
  unfold Outbox.enqueue
  cases hins : u.insert r with
  | none => exact h
  | some v =>
      intro k r' hr'
      rw [Option.getD_some, Table.find?_insert hins] at hr'
      split at hr'
      · next hk =>
          cases hr'
          subst hk
          refine .inr ⟨?_, hfresh, hdel⟩
          cases hfind : t.find? (key r) with
          | none => rfl
          | some r₀ =>
              obtain ⟨r₁, hr₁, -⟩ := hkept _ r₀ hfind
              obtain ⟨hmem, hk⟩ := Table.find?_eq_some.1 hr₁
              exact absurd hk (Table.insert_fresh hins r₁ hmem)
      · exact h k r' hr'

theorem Stems.settle {lease : LeaseKey} {added : List String} (f : OutboxRow → OutboxRow)
    (hkey : ∀ r, key (f r) = key r) (hty : ∀ r, (f r).eventType = r.eventType)
    (horg : ∀ r, (f r).organizationId = r.organizationId)
    (hnames : ∀ r, ∀ name ∈ (f r).deliveries.names,
      name ∈ r.deliveries.names ∨ name ∈ added) :
    Stems (fun k name => k = lease.id ∧ name ∈ added) fresh t (settle t lease f hkey).1 := by
  refine Stems.update f hkey hty horg fun r name hp hname => ?_
  rcases hnames r name hname with hold | hadded
  · exact .inl hold
  · have hlease : leasedBy lease r = true := (Bool.and_eq_true_iff.1 hp).1
    simp only [leasedBy, Bool.and_eq_true, decide_eq_true_eq] at hlease
    exact .inr ⟨hlease.1, hadded⟩

/-! ## What a settlement reports -/

theorem settleFailure_stems (relay : Relay) (t : OutboxTable) (record : OutboxRecord)
    (failed : FailedDelivery) (m : Moment) :
    Stems (fun k name => k = record.id ∧ name ∈ failed.delivered.names)
      (fun k => k = m.eventId) t (settleFailure relay t record failed m) := by
  have hwritten : ∀ failure : OutboxFailure, failure.deliveries = failed.delivered →
      Stems (fun k name => k = record.id ∧ name ∈ failed.delivered.names)
        (fun k => k = m.eventId) t (markFailed t m.now (leaseKeyOf record) failure).1 := by
    intro failure hfailure
    refine Stems.settle (failedSet m.now failure) (fun _ => rfl) (fun _ => rfl)
      (fun _ => rfl) fun r name hname => ?_
    rw [← hfailure]
    exact mem_names_merged.1 hname
  simp only [settleFailure]
  split
  · exact hwritten _ rfl
  · exact (hwritten _ rfl).enqueue (markFailed_keeps _ _ _ _) rfl rfl

/-- The handlers of a record that are reported as done. -/
def reported (record : OutboxRecord) (names : List String) (runs : List HandlerRun) :
    List String :=
  (((toRun record names).zip runs).filter fun o => o.2 = .ok).map Prod.fst

theorem mem_reported {record : OutboxRecord} {names : List String} {runs : List HandlerRun}
    {name : String} :
    name ∈ reported record names runs ↔ (name, .ok) ∈ (toRun record names).zip runs := by
  simp [reported]

theorem deliver_names {record : OutboxRecord} {names : List String} {runs : List HandlerRun}
    {doneAt : String} {delivered : Deliveries} {failures : List (String × String)}
    (h : deliver record names runs doneAt = .finished delivered failures) :
    delivered.names = reported record names runs := by
  simp only [deliver] at h
  split at h
  · cases h
  · cases h
    rw [Deliveries.names, List.map_map]
    rfl

theorem settleRecord_stems (scrubText : String → String) (relay : Relay) (t : OutboxTable)
    (record : OutboxRecord) (runs : List HandlerRun) (m : Moment) :
    Stems
      (fun k name => k = record.id ∧
        name ∈ reported record (relay.dispatcher.handlersOf record.eventType) runs)
      (fun k => k = m.eventId) t (settleRecord scrubText relay t record runs m) := by
  simp only [settleRecord]
  split
  · exact (settleFailure_stems _ _ _ _ _).weaken (fun _ _ h => absurd h.2 List.not_mem_nil)
      fun _ h => h
  · split
    · exact Stems.update (releasedSet m.now) (key_releasedSet m.now) (fun _ => rfl)
        (fun _ => rfl) fun _ _ _ hname => .inl hname
    · next delivered failures hdel =>
        rw [← deliver_names hdel]
        split
        · exact Stems.settle (deliveredSet m.now delivered) (fun _ => rfl) (fun _ => rfl)
            (fun _ => rfl) fun _ _ hname => mem_names_merged.1 hname
        · exact settleFailure_stems _ _ _ _ _

/-! ## What a step adds -/

section Step

variable {scrubText : String → String} {relays : Nat → Relay} {s t : RelayState}
  {e : RelayEvent}

/-- The step settles a job of the row and reports the handler as done. -/
def ReportedBy (relays : Nat → Relay) (s : RelayState) (e : RelayEvent) (k name : String) :
    Prop :=
  ∃ j runs doneAt random eventId job,
    e = .settle j runs doneAt random eventId ∧ s.jobs[j]? = some job ∧ job.record.id = k ∧
    name ∈ reported job.record (namesOf relays job) runs

/-- The id of a row the step may add. -/
def AddedBy : RelayEvent → String → Prop
  | .enqueue r, k => k = r.id
  | .settle _ _ _ _ eventId, k => k = eventId
  | _, _ => False

theorem relayStep_stems (hnew : ∀ r, e = .enqueue r → r.deliveries = [])
    (h : relayStep scrubText relays s e = some t) :
    Stems (ReportedBy relays s e) (AddedBy e) s.table t.table := by
  cases e with
  | claim i locked =>
      cases h
      exact Stems.update (claimedSet s.clock (relays i).options.leaseSeconds)
        (key_claimedSet s.clock _) (fun _ => rfl) (fun _ => rfl) fun _ _ _ hname => .inl hname
  | settle j runs doneAt random eventId =>
      obtain ⟨job, hjob, -, -, rfl⟩ := settle_eq_some h
      refine (settleRecord_stems scrubText _ _ _ _ _).weaken ?_ fun _ hk => hk
      rintro k name ⟨rfl, hname⟩
      exact ⟨j, runs, doneAt, random, eventId, job, rfl, hjob, rfl, hname⟩
  | giveBack j =>
      obtain ⟨job, -, h⟩ := Option.bind_eq_some_iff.1 h
      cases h
      exact Stems.update (releasedSet s.clock) (key_releasedSet s.clock) (fun _ => rfl)
        (fun _ => rfl) fun _ _ _ hname => .inl hname
  | requeueDead ids leaseSeconds =>
      cases h
      exact Stems.update (fun r => { r with nextAttemptAt := some s.clock }) (fun _ => rfl)
        (fun _ => rfl) (fun _ => rfl) fun _ _ _ hname => .inl hname
  | enqueue r =>
      cases h
      exact (Stems.refl _).enqueue (Evolves.refl _) (hnew r rfl) rfl
  | start j | abandon j =>
      obtain ⟨job, -, h⟩ := Option.bind_eq_some_iff.1 h
      cases h
      exact Stems.refl _
  | wait n =>
      cases h
      exact Stems.refl _

/-- A new job works from the record of a row as it stood. -/
theorem relayStep_claimed (h : relayStep scrubText relays s e = some t) {j : Nat}
    {job' : Job} (hj : t.jobs[j]? = some job') (hge : s.jobs.length ≤ j) :
    ∃ r, s.table.find? job'.record.id = some r ∧ r.eventType = job'.record.eventType ∧
      r.organizationId = job'.record.organizationId := by
  have hlt : j < t.jobs.length := (List.getElem?_eq_some_iff.1 hj).1
  cases e with
  | claim i locked =>
      cases h
      change (s.jobs ++ (claim s.table s.clock locked _).2.map fun r =>
        (⟨i, recordOf r, .claimed⟩ : Job))[j]? = some job' at hj
      rw [List.getElem?_append_right hge] at hj
      obtain ⟨r', hr', rfl⟩ := List.mem_map.1 (List.mem_of_getElem? hj)
      obtain ⟨r, hr, -, rfl⟩ := Table.mem_returning.1 (mem_orderBy.1 hr')
      exact ⟨r, Table.find?_eq_some.2 ⟨hr, rfl⟩, rfl, rfl⟩
  | settle i runs doneAt random eventId =>
      obtain ⟨job, -, -, -, rfl⟩ := settle_eq_some h
      simp only [RelayState.withPhase, List.length_modify] at hlt
      omega
  | start i | giveBack i | abandon i =>
      obtain ⟨job, -, h⟩ := Option.bind_eq_some_iff.1 h
      cases h
      simp only [RelayState.withPhase, List.length_modify] at hlt
      omega
  | requeueDead ids leaseSeconds | enqueue r | wait n =>
      cases h
      exact absurd hlt (Nat.not_lt.2 hge)

/-- The record of a job was its row once, and no statement changes the type or
the organization of a row. -/
def SourcesKept (s : RelayState) : Prop :=
  ∀ (j : Nat) (job : Job), s.jobs[j]? = some job → ∃ r, s.table.find? job.record.id = some r ∧
    r.eventType = job.record.eventType ∧ r.organizationId = job.record.organizationId

theorem SourcesKept.step (hs : SourcesKept s)
    (hnew : ∀ r, e = .enqueue r → r.deliveries = [])
    (h : relayStep scrubText relays s e = some t) : SourcesKept t := by
  intro j job' hj
  have hbefore : ∃ r, s.table.find? job'.record.id = some r ∧
      r.eventType = job'.record.eventType ∧
      r.organizationId = job'.record.organizationId := by
    rcases relayStep_jobs h hj with ⟨job, hj₀, hrec, -⟩ | ⟨hge, -⟩
    · rw [← hrec]
      exact hs j job hj₀
    · exact relayStep_claimed h hj hge
  obtain ⟨r, hr, hty, horg⟩ := hbefore
  obtain ⟨r', hr', -⟩ := relayStep_evolves h _ r hr
  refine ⟨r', hr', ?_⟩
  rcases relayStep_stems hnew h _ r' hr' with ⟨r₀, hr₀, hty', horg', -⟩ | ⟨hnone, -⟩
  · rw [hr] at hr₀
    cases hr₀
    exact ⟨hty'.trans hty, horg'.trans horg⟩
  · rw [hr] at hnone
    cases hnone

/-- A row with a name on it was claimed once. -/
def NamesClaimed (s : RelayState) : Prop :=
  ∀ k r, s.table.find? k = some r → r.deliveries.names ≠ [] →
    ∃ job ∈ s.jobs, job.record.id = k

theorem NamesClaimed.step (hs : NamesClaimed s)
    (hnew : ∀ r, e = .enqueue r → r.deliveries = [])
    (h : relayStep scrubText relays s e = some t) : NamesClaimed t := by
  intro k r' hr' hne
  obtain ⟨name, hname⟩ := List.exists_mem_of_ne_nil _ hne
  have hbefore : ∃ (j : Nat) (job : Job), s.jobs[j]? = some job ∧ job.record.id = k := by
    rcases relayStep_stems hnew h k r' hr' with ⟨r, hr, -, -, hnames⟩ | ⟨-, -, hdel⟩
    · rcases hnames name hname with hold | ⟨j, _, _, _, _, job, -, hj, hk, -⟩
      · obtain ⟨job, hjob, hk⟩ := hs k r hr (List.ne_nil_of_mem hold)
        obtain ⟨j, hj⟩ := List.mem_iff_getElem?.1 hjob
        exact ⟨j, job, hj, hk⟩
      · exact ⟨j, job, hj, hk⟩
    · rw [hdel] at hname
      cases hname
  obtain ⟨j, job, hj, hk⟩ := hbefore
  obtain ⟨job', hj', hrec⟩ := relayStep_keeps_job h hj
  exact ⟨job', List.mem_of_getElem? hj', (congrArg OutboxRecord.id hrec).trans hk⟩

end Step

end Stems

end CleanStack.Outbox
