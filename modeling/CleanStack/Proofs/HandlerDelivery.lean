import CleanStack.Outbox.Relay

/-!
# Every handler, once its success is known

A job works from the snapshot its claim returned, and by the time it settles
the row may have been claimed, failed and settled by others. Two facts make
that harmless. The recorded names of a row only grow, whatever statement runs
(`Evolves`, one lemma per statement). And a snapshot was the row once, so its
names are among the row's names for ever after (`Snapshots`).

So a handler left out because the snapshot had its name is in the row when the
row is dispatched, and a handler that was started and succeeded is written by
the dispatch itself. One handler is neither: `in` finds `constructor` in every
object, so a handler of that name is left out without having run.
-/

namespace CleanStack.Outbox

open CleanStack.Lib CleanStack.Drizzle CleanStack.Kit Keyed

/-! ## What a statement may do to a row -/

/-- Every row of `t` is still there in `u` with its type and the names recorded
on it, and if it was dispatched in between, `D` holds of what it became. -/
def Evolves (D : OutboxRow → Prop) (t u : OutboxTable) : Prop :=
  ∀ k r, t.find? k = some r → ∃ r', u.find? k = some r' ∧
    r'.eventType = r.eventType ∧ r.deliveries.names ⊆ r'.deliveries.names ∧
    (r.dispatchedAt = none → r'.dispatchedAt ≠ none → D r')

/-- The same, and no row is dispatched. -/
abbrev Keeps : OutboxTable → OutboxTable → Prop := Evolves fun _ => False

theorem Evolves.refl (t : OutboxTable) : Keeps t t := fun _ r hr =>
  ⟨r, hr, rfl, List.Subset.refl _, fun hn hd => hd hn⟩

theorem Evolves.weaken {D E : OutboxRow → Prop} {t u : OutboxTable}
    (h : Evolves D t u) (hDE : ∀ r, D r → E r) : Evolves E t u := by
  intro k r hr
  obtain ⟨r', hr', hty, hsub, hD⟩ := h k r hr
  exact ⟨r', hr', hty, hsub, fun hn hd => hDE r' (hD hn hd)⟩

theorem Evolves.keeps {D : OutboxRow → Prop} {t u : OutboxTable} (h : Keeps t u) :
    Evolves D t u :=
  h.weaken fun _ => False.elim

theorem Evolves.trans {t u v : OutboxTable} (h : Keeps t u) (h' : Keeps u v) :
    Keeps t v := by
  intro k r hr
  obtain ⟨r₁, hr₁, hty₁, hsub₁, hD₁⟩ := h k r hr
  obtain ⟨r₂, hr₂, hty₂, hsub₂, hD₂⟩ := h' k r₁ hr₁
  refine ⟨r₂, hr₂, hty₂.trans hty₁, List.Subset.trans hsub₁ hsub₂, fun hn hd => ?_⟩
  by_cases h₁ : r₁.dispatchedAt = none
  · exact hD₂ h₁ hd
  · exact hD₁ hn h₁

theorem Evolves.update {D : OutboxRow → Prop} {t : OutboxTable}
    {p : OutboxRow → Bool} (f : OutboxRow → OutboxRow)
    (hkey : ∀ r, key (f r) = key r)
    (hty : ∀ r, (f r).eventType = r.eventType)
    (hsub : ∀ r, r.deliveries.names ⊆ (f r).deliveries.names)
    (hD : ∀ r ∈ t.rows, p r = true → r.dispatchedAt = none →
      (f r).dispatchedAt ≠ none → D (f r)) :
    Evolves D t (t.update p f hkey) := by
  intro k r hr
  rw [Table.find?_update, hr, Option.map_some]
  refine ⟨_, rfl, ?_⟩
  by_cases hp : p r = true
  · rw [if_pos hp]
    exact ⟨hty r, hsub r, hD r (Table.find?_eq_some.1 hr).1 hp⟩
  · rw [if_neg hp]
    exact ⟨rfl, List.Subset.refl _, fun hn hd => absurd hn hd⟩

theorem names_subset_merged (stored added : Deliveries) :
    stored.names ⊆ (merged stored added).names := fun _ h =>
  mem_names_merged.2 (.inl h)

theorem claim_keeps (t : OutboxTable) (now : Time) (locked : String → Bool)
    (req : ClaimRequest) : Keeps t (claim t now locked req).1 :=
  Evolves.update (claimedSet now req.leaseSeconds)
    (key_claimedSet now req.leaseSeconds) (fun _ => rfl)
    (fun _ => List.Subset.refl _) fun _ _ _ hn hd => hd hn

theorem release_keeps (t : OutboxTable) (now : Time) (lease : LeaseKey) :
    Keeps t (release t now lease).1 :=
  Evolves.update (releasedSet now) (key_releasedSet now) (fun _ => rfl)
    (fun _ => List.Subset.refl _) fun _ _ _ hn hd => hd hn

theorem markFailed_keeps (t : OutboxTable) (now : Time) (lease : LeaseKey)
    (failure : OutboxFailure) : Keeps t (markFailed t now lease failure).1 :=
  Evolves.update (failedSet now failure) (fun _ => rfl) (fun _ => rfl)
    (fun r => names_subset_merged r.deliveries failure.deliveries)
    fun _ _ _ hn hd => hd hn

theorem requeueDead_keeps (t : OutboxTable) (now : Time) (ids : List String)
    (leaseSeconds : Nat) : Keeps t (requeueDead t now ids leaseSeconds).1 :=
  Evolves.update (fun r => { r with nextAttemptAt := some now }) (fun _ => rfl)
    (fun _ => rfl) (fun _ => List.Subset.refl _) fun _ _ _ hn hd => hd hn

theorem markDelivered_evolves (t : OutboxTable) (now : Time) (lease : LeaseKey)
    (deliveries : Deliveries) :
    Evolves (fun r' => ∃ r ∈ t.rows, leased lease r = true ∧
        r' = deliveredSet now deliveries r) t (markDelivered t now lease deliveries).1 :=
  Evolves.update (deliveredSet now deliveries) (fun _ => rfl) (fun _ => rfl)
    (fun r => names_subset_merged r.deliveries deliveries)
    fun r hr hp _ _ => ⟨r, hr, hp, rfl⟩

theorem enqueue_keeps (t : OutboxTable) (r : OutboxRow) : Keeps t (enqueue t r) := by
  unfold enqueue
  cases hins : t.insert r with
  | none => exact Evolves.refl t
  | some u =>
      intro k r₀ hr₀
      obtain ⟨hmem, hk⟩ := Table.find?_eq_some.1 hr₀
      have hfind : u.find? k = some r₀ :=
        Table.find?_eq_some.2 ⟨(Table.mem_insert hins).2 (.inr hmem), hk⟩
      exact ⟨r₀, hfind, rfl, List.Subset.refl _, fun hn hd => hd hn⟩

/-! ## What a settlement may do -/

section Settle

variable (scrubText : String → String)

theorem settleFailure_keeps (relay : Relay) (t : OutboxTable) (record : OutboxRecord)
    (failed : FailedDelivery) (m : Moment) :
    Keeps t (settleFailure relay t record failed m) := by
  simp only [settleFailure]
  split
  · exact markFailed_keeps _ _ _ _
  · exact (markFailed_keeps _ _ _ _).trans (enqueue_keeps _ _)

/-- A delivery that finished without failures has an entry for every handler
it started. -/
theorem mem_delivered {record : OutboxRecord} {names : List String}
    {runs : List HandlerRun} {doneAt : String} {delivered : Deliveries}
    {failures : List (String × String)}
    (hruns : runs.length = (toRun record names).length)
    (hdel : deliver record names runs doneAt = .finished delivered failures)
    (hfail : failures.length = 0) {name : String} (hname : name ∈ toRun record names) :
    name ∈ delivered.names := by
  simp only [deliver] at hdel
  split at hdel
  · cases hdel
  · next hint =>
      cases hdel
      obtain ⟨i, hi, rfl⟩ := List.getElem_of_mem hname
      have hi' : i < runs.length := hruns ▸ hi
      have hz : ((toRun record names)[i], runs[i]) ∈ (toRun record names).zip runs := by
        have hlt : i < ((toRun record names).zip runs).length := by
          rw [List.length_zip]
          omega
        rw [← List.getElem_zip (h := hlt)]
        exact List.getElem_mem hlt
      have hrun : runs[i] = .ok := by
        cases hr : runs[i] with
        | ok => rfl
        | failed error =>
            rw [List.length_eq_zero_iff, List.filterMap_eq_nil_iff] at hfail
            have hnone := hfail _ hz
            rw [hr] at hnone
            cases hnone
        | interrupted =>
            exact absurd (List.any_eq_true.2 ⟨_, hz, by simp [hr]⟩) hint
      refine mem_names.2 ⟨doneAt, List.mem_map.2 ⟨_, List.mem_filter.2 ⟨hz, ?_⟩, rfl⟩⟩
      rw [hrun]
      rfl

/-- What the settlement of a record may make of a row it dispatches: the row
was the record's, and carries the handlers that were started. -/
theorem settleRecord_evolves (relay : Relay) (t : OutboxTable) (record : OutboxRecord)
    (runs : List HandlerRun) (m : Moment)
    (hruns : runs.length =
      (toRun record (relay.dispatcher.handlersOf record.eventType)).length) :
    Evolves (fun r' => ∃ r, t.find? record.id = some r ∧ r'.id = record.id ∧
        r.deliveries.names ⊆ r'.deliveries.names ∧
        ∀ name ∈ toRun record (relay.dispatcher.handlersOf record.eventType),
          name ∈ r'.deliveries.names)
      t (settleRecord scrubText relay t record runs m) := by
  simp only [settleRecord]
  split
  · exact (settleFailure_keeps _ _ _ _ _).keeps
  · split
    · exact (release_keeps _ _ _).keeps
    · next delivered failures hdel =>
        split
        · next hfail =>
            refine (markDelivered_evolves _ _ _ _).weaken ?_
            rintro r' ⟨r, hr, hl, rfl⟩
            have hid : r.id = record.id := by
              have hlease : leasedBy (leaseKeyOf record) r = true :=
                (Bool.and_eq_true_iff.1 hl).1
              simp only [leasedBy, Bool.and_eq_true, decide_eq_true_eq] at hlease
              exact hlease.1
            refine ⟨r, Table.find?_eq_some.2 ⟨hr, hid⟩, hid,
              names_subset_merged _ _, fun name hname => ?_⟩
            exact mem_names_merged.2 (.inr (mem_delivered hruns hdel hfail hname))
        · exact (settleFailure_keeps _ _ _ _ _).keeps

end Settle

/-! ## What a step of the relays may do -/

section Step

variable {scrubText : String → String} {relays : Nat → Relay} {s t : RelayState}
  {e : RelayEvent}

/-- A row that the settlement of a job dispatched: it was the job's row, it kept
its recorded names, and the handlers the job started joined them. -/
def DispatchedBy (relays : Nat → Relay) (s : RelayState) (e : RelayEvent)
    (r' : OutboxRow) : Prop :=
  ∃ j runs doneAt random eventId job r,
    e = .settle j runs doneAt random eventId ∧ s.jobs[j]? = some job ∧
    s.table.find? job.record.id = some r ∧ r'.id = job.record.id ∧
    r.deliveries.names ⊆ r'.deliveries.names ∧
    ∀ name ∈ toRun job.record (namesOf relays job), name ∈ r'.deliveries.names

theorem relayStep_evolves (h : relayStep scrubText relays s e = some t) :
    Evolves (DispatchedBy relays s e) s.table t.table := by
  cases e with
  | claim i locked =>
      cases h
      exact (claim_keeps _ _ _ _).keeps
  | start j =>
      obtain ⟨job, -, h⟩ := Option.bind_eq_some_iff.1 h
      cases h
      exact (Evolves.refl _).keeps
  | settle j runs doneAt random eventId =>
      obtain ⟨job, hjob, -, hruns, rfl⟩ := settle_eq_some h
      refine (settleRecord_evolves scrubText _ _ _ _ _ hruns).weaken ?_
      rintro r' ⟨r, hr, hid, hsub, hnames⟩
      exact ⟨j, runs, doneAt, random, eventId, job, r, rfl, hjob, hr, hid, hsub, hnames⟩
  | giveBack j =>
      obtain ⟨job, -, h⟩ := Option.bind_eq_some_iff.1 h
      cases h
      exact (release_keeps _ _ _).keeps
  | abandon j =>
      obtain ⟨job, -, h⟩ := Option.bind_eq_some_iff.1 h
      cases h
      exact (Evolves.refl _).keeps
  | requeueDead ids leaseSeconds =>
      cases h
      exact (requeueDead_keeps _ _ _ _).keeps
  | enqueue r =>
      cases h
      exact (enqueue_keeps _ _).keeps
  | wait n =>
      cases h
      exact (Evolves.refl _).keeps

/-- A job after a step is a job from before it, its phase apart, or a new one
whose record is a row as it stood. -/
def JobFrom (s : RelayState) (j : Nat) (job' : Job) : Prop :=
  (∃ job, s.jobs[j]? = some job ∧ job.record = job'.record ∧ job.relay = job'.relay) ∨
  (s.jobs.length ≤ j ∧ ∃ r, s.table.find? job'.record.id = some r ∧
    r.eventType = job'.record.eventType ∧ r.deliveries = job'.record.deliveries)

theorem JobFrom.withPhase {j i : Nat} {phase : JobPhase} {job' : Job}
    (h : (s.withPhase i phase).jobs[j]? = some job') : JobFrom s j job' := by
  simp only [RelayState.withPhase, List.getElem?_modify] at h
  cases hj : s.jobs[j]? with
  | none =>
      rw [hj] at h
      cases h
  | some job =>
      rw [hj, Option.map_eq_map, Option.map_some] at h
      cases h
      refine .inl ⟨job, hj, ?_⟩
      split <;> exact ⟨rfl, rfl⟩

theorem JobFrom.claimed {i j : Nat} {locked : String → Bool} {req : ClaimRequest}
    {job' : Job}
    (h : (s.jobs ++ (claim s.table s.clock locked req).2.map fun r =>
      (⟨i, recordOf r, .claimed⟩ : Job))[j]? = some job') : JobFrom s j job' := by
  rcases Nat.lt_or_ge j s.jobs.length with hlt | hge
  · rw [List.getElem?_append_left hlt] at h
    exact .inl ⟨job', h, rfl, rfl⟩
  · rw [List.getElem?_append_right hge] at h
    obtain ⟨r', hr', rfl⟩ := List.mem_map.1 (List.mem_of_getElem? h)
    obtain ⟨r, hr, -, rfl⟩ := Table.mem_returning.1 ((mem_orderBy).1 hr')
    exact .inr ⟨hge, r, Table.find?_eq_some.2 ⟨hr, rfl⟩, rfl, rfl⟩

theorem relayStep_jobs (h : relayStep scrubText relays s e = some t) {j : Nat}
    {job' : Job} (hj : t.jobs[j]? = some job') : JobFrom s j job' := by
  cases e with
  | claim i locked =>
      cases h
      exact JobFrom.claimed hj
  | start i =>
      obtain ⟨job, -, h⟩ := Option.bind_eq_some_iff.1 h
      cases h
      exact JobFrom.withPhase hj
  | settle i runs doneAt random eventId =>
      obtain ⟨job, -, -, -, rfl⟩ := settle_eq_some h
      exact JobFrom.withPhase hj
  | giveBack i =>
      obtain ⟨job, -, h⟩ := Option.bind_eq_some_iff.1 h
      cases h
      exact JobFrom.withPhase hj
  | abandon i =>
      obtain ⟨job, -, h⟩ := Option.bind_eq_some_iff.1 h
      cases h
      exact JobFrom.withPhase hj
  | requeueDead ids leaseSeconds | enqueue r | wait n =>
      cases h
      exact .inl ⟨job', hj, rfl, rfl⟩

theorem relayStep_length (h : relayStep scrubText relays s e = some t) :
    s.jobs.length ≤ t.jobs.length := by
  cases e with
  | claim i locked =>
      cases h
      rw [List.length_append]
      omega
  | start i =>
      obtain ⟨job, -, h⟩ := Option.bind_eq_some_iff.1 h
      cases h
      simp [RelayState.withPhase]
  | settle i runs doneAt random eventId =>
      obtain ⟨job, -, -, -, rfl⟩ := settle_eq_some h
      simp [RelayState.withPhase]
  | giveBack i | abandon i =>
      obtain ⟨job, -, h⟩ := Option.bind_eq_some_iff.1 h
      cases h
      simp [RelayState.withPhase]
  | requeueDead ids leaseSeconds | enqueue r | wait n =>
      cases h
      exact Nat.le_refl _

/-- A job keeps its record. -/
theorem relayStep_keeps_job (h : relayStep scrubText relays s e = some t) {j : Nat}
    {job : Job} (hj : s.jobs[j]? = some job) :
    ∃ job', t.jobs[j]? = some job' ∧ job'.record = job.record := by
  have hlt : j < s.jobs.length := (List.getElem?_eq_some_iff.1 hj).1
  have hlt' : j < t.jobs.length := Nat.lt_of_lt_of_le hlt (relayStep_length h)
  refine ⟨t.jobs[j], List.getElem?_eq_getElem hlt', ?_⟩
  rcases relayStep_jobs h (List.getElem?_eq_getElem hlt') with ⟨job₀, hj₀, hrec, -⟩ | ⟨hge, -⟩
  · rw [hj] at hj₀
    cases hj₀
    exact hrec.symm
  · omega

theorem relayStep_started (h : relayStep scrubText relays s e = some t)
    {p : Nat × String} (hp : p ∈ t.started) :
    p ∈ s.started ∨
      ∃ job, s.jobs[p.1]? = some job ∧ p.2 ∉ job.record.deliveries.names := by
  cases e with
  | start j =>
      obtain ⟨job, hjob, h⟩ := Option.bind_eq_some_iff.1 h
      cases h
      rcases List.mem_append.1 hp with hp | hp
      · exact .inl hp
      · obtain ⟨name, hname, rfl⟩ := List.mem_map.1 hp
        refine .inr ⟨job, (jobIn_eq_some hjob).1, ?_⟩
        have hnot := (List.mem_filter.1 hname).2
        simp only [isIn, Bool.not_eq_true', Bool.or_eq_false_iff] at hnot
        simpa using hnot.1
  | claim i locked =>
      cases h
      exact .inl hp
  | settle i runs doneAt random eventId =>
      obtain ⟨job, -, -, -, rfl⟩ := settle_eq_some h
      exact .inl hp
  | giveBack i | abandon i =>
      obtain ⟨job, -, h⟩ := Option.bind_eq_some_iff.1 h
      cases h
      exact .inl hp
  | requeueDead ids leaseSeconds | enqueue r | wait n =>
      cases h
      exact .inl hp

/-! ## Along a run -/

/-- The record of a job was its row once. -/
def Snapshots (s : RelayState) : Prop :=
  ∀ (j : Nat) (job : Job), s.jobs[j]? = some job → ∃ r, s.table.find? job.record.id = some r ∧
    r.eventType = job.record.eventType ∧ job.record.deliveries.names ⊆ r.deliveries.names

theorem Snapshots.step (hs : Snapshots s) (h : relayStep scrubText relays s e = some t) :
    Snapshots t := by
  intro j job' hj
  rcases relayStep_jobs h hj with ⟨job, hj₀, hrec, -⟩ | ⟨-, r, hr, hty, hdel⟩
  · obtain ⟨r, hr, hty, hsub⟩ := hs j job hj₀
    obtain ⟨r', hr', hty', hsub', -⟩ := relayStep_evolves h _ r hr
    rw [← hrec]
    exact ⟨r', hr', hty'.trans hty, List.Subset.trans hsub hsub'⟩
  · obtain ⟨r', hr', hty', hsub', -⟩ := relayStep_evolves h _ r hr
    rw [hdel] at hsub'
    exact ⟨r', hr', hty'.trans hty, hsub'⟩

/-- Only jobs start handlers. -/
def StartedByJobs (s : RelayState) : Prop := ∀ p ∈ s.started, p.1 < s.jobs.length

theorem StartedByJobs.step (hs : StartedByJobs s)
    (h : relayStep scrubText relays s e = some t) : StartedByJobs t := by
  intro p hp
  rcases relayStep_started h hp with hp | ⟨job, hj, -⟩
  · exact Nat.lt_of_lt_of_le (hs p hp) (relayStep_length h)
  · exact Nat.lt_of_lt_of_le (List.getElem?_eq_some_iff.1 hj).1 (relayStep_length h)

/-- What has happened since the state `m`: rows kept the names they had, jobs
made since know the names their row had, and no such job has started one. -/
structure Since (m s : RelayState) : Prop where
  kept : ∀ k r, m.table.find? k = some r →
    ∃ r', s.table.find? k = some r' ∧ r.deliveries.names ⊆ r'.deliveries.names
  longer : m.jobs.length ≤ s.jobs.length
  informed : ∀ (j : Nat) (job : Job), m.jobs.length ≤ j → s.jobs[j]? = some job →
    ∀ r, m.table.find? job.record.id = some r →
      r.deliveries.names ⊆ job.record.deliveries.names
  notRestarted : ∀ j name, (j, name) ∈ s.started → m.jobs.length ≤ j →
    ∃ job, s.jobs[j]? = some job ∧ name ∉ job.record.deliveries.names

theorem Since.refl (hs : StartedByJobs s) : Since s s where
  kept := fun _ r hr => ⟨r, hr, List.Subset.refl _⟩
  longer := Nat.le_refl _
  informed := by
    intro j job hge hj
    have hlt : j < s.jobs.length := (List.getElem?_eq_some_iff.1 hj).1
    omega
  notRestarted := by
    intro j name hp hge
    have hlt : j < s.jobs.length := hs (j, name) hp
    omega

theorem Since.step {m : RelayState} (hs : Since m s)
    (h : relayStep scrubText relays s e = some t) : Since m t where
  kept := by
    intro k r hr
    obtain ⟨r₁, hr₁, hsub₁⟩ := hs.kept k r hr
    obtain ⟨r₂, hr₂, -, hsub₂, -⟩ := relayStep_evolves h k r₁ hr₁
    exact ⟨r₂, hr₂, List.Subset.trans hsub₁ hsub₂⟩
  longer := Nat.le_trans hs.longer (relayStep_length h)
  informed := by
    intro j job' hge hj r hr
    rcases relayStep_jobs h hj with ⟨job, hj₀, hrec, -⟩ | ⟨-, r₁, hr₁, -, hdel⟩
    · rw [← hrec] at hr ⊢
      exact hs.informed j job hge hj₀ r hr
    · obtain ⟨r₂, hr₂, hsub₂⟩ := hs.kept _ r hr
      rw [hr₁] at hr₂
      cases hr₂
      rwa [hdel] at hsub₂
  notRestarted := by
    intro j name hp hge
    have hjob : ∃ job, s.jobs[j]? = some job ∧ name ∉ job.record.deliveries.names := by
      rcases relayStep_started h hp with hp | hnew
      · exact hs.notRestarted j name hp hge
      · exact hnew
    obtain ⟨job, hj, hname⟩ := hjob
    obtain ⟨job', hj', hrec⟩ := relayStep_keeps_job h hj
    exact ⟨job', hj', hrec ▸ hname⟩

end Step

/-! ## The guarantees -/

/-- Of the names every object answers to, a handler can only be called
`constructor`. -/
theorem handlerName_objectPrototype {name : String} (h : HANDLER_NAME name = true)
    (hin : name ∈ objectPrototypeKeys) : name = "constructor" := by
  have hall : ∀ n ∈ objectPrototypeKeys, HANDLER_NAME n = true → n = "constructor" := by
    decide +kernel
  exact hall name hin h

/-- The step does not settle a job whose relay has a `constructor` handler for
its type. -/
def SparesConstructor (relays : Nat → Relay) (s : RelayState) : RelayEvent → Prop
  | .settle j _ _ _ _ => ∀ job, s.jobs[j]? = some job → "constructor" ∉ namesOf relays job
  | _ => True

/-- A row the step dispatches has an entry for every handler subscribed to its
type at the relay that settled it. -/
def DispatchRecorded (relays : Nat → Relay) (s : RelayState) (e : RelayEvent)
    (t : RelayState) : Prop :=
  ∀ k r r', s.table.find? k = some r → t.table.find? k = some r' →
    r.dispatchedAt = none → r'.dispatchedAt ≠ none →
    ∃ j runs doneAt random eventId job,
      e = .settle j runs doneAt random eventId ∧ s.jobs[j]? = some job ∧
      job.record.id = k ∧
      ∀ name ∈ (relays job.relay).dispatcher.handlersOf r'.eventType,
        name ∈ r'.deliveries.names

/-- The names recorded on a row in `m` are recorded on it in `s`. -/
def RecordedKept (m s : RelayState) : Prop :=
  ∀ k r, m.table.find? k = some r →
    ∃ r', s.table.find? k = some r' ∧ r.deliveries.names ⊆ r'.deliveries.names

/-- No job claimed since `m` started a handler that its row had recorded in
`m`. -/
def NotStartedAgain (m s : RelayState) : Prop :=
  ∀ (j : Nat) (job : Job) name r, m.jobs.length ≤ j → s.jobs[j]? = some job →
    m.table.find? job.record.id = some r → name ∈ r.deliveries.names →
    (j, name) ∉ s.started

section Guarantees

variable {scrubText : String → String} {relays : Nat → Relay}

theorem dispatchRecorded_of_snapshots {s t : RelayState} {e : RelayEvent}
    (hs : Snapshots s) (hspare : SparesConstructor relays s e)
    (h : relayStep scrubText relays s e = some t) : DispatchRecorded relays s e t := by
  intro k r r' hr hr' hopen hdone
  obtain ⟨r₁, hr₁, hty, -, hD⟩ := relayStep_evolves h k r hr
  rw [hr'] at hr₁
  cases hr₁
  obtain ⟨j, runs, doneAt, random, eventId, job, r₀, rfl, hj, hr₀, hid, hsub, hran⟩ :=
    hD hopen hdone
  have hk : job.record.id = k := hid.symm.trans (Table.find?_eq_some.1 hr').2
  rw [hk, hr] at hr₀
  cases hr₀
  obtain ⟨r₂, hr₂, hty₂, hsnap⟩ := hs j job hj
  rw [hk, hr] at hr₂
  cases hr₂
  refine ⟨j, runs, doneAt, random, eventId, job, rfl, hj, hk, fun name hname => ?_⟩
  rw [hty, hty₂] at hname
  by_cases hin : isIn name job.record.deliveries = true
  · -- left out by `deliver`: recorded on the snapshot, since it is not `constructor`
    rcases Bool.or_eq_true_iff.1 hin with hown | hproto
    · exact hsub (hsnap (by simpa using hown))
    · have hc := handlerName_objectPrototype (Dispatcher.handlerName_of_mem hname)
        (by simpa using hproto)
      rw [hc] at hname
      exact absurd hname (hspare job hj)
  · exact hran name (List.mem_filter.2 ⟨hname, by simpa using hin⟩)

theorem Since.notStartedAgain {m s : RelayState} (h : Since m s) :
    NotStartedAgain m s := by
  intro j job name r hge hj hr hname hp
  obtain ⟨job', hj', hnot⟩ := h.notRestarted j name hp hge
  rw [hj] at hj'
  cases hj'
  exact hnot (h.informed j job hge hj r hr hname)

/-- From a start without jobs, along any run: a step that dispatches a row
leaves every handler of the settling relay recorded, provided no step so far
met a `constructor` handler; and whatever runs next, recorded names stay and
are not run for a later claim. -/
theorem handler_delivery {s m t : RelayState} {es : List RelayEvent} {e : RelayEvent}
    (hjobs : s.jobs = []) (hstarted : s.started = [])
    (hm : exec (relayStep scrubText relays) s es = some m)
    (ht : relayStep scrubText relays m e = some t)
    (hmeets : Meets (relayStep scrubText relays) (SparesConstructor relays) s
      (es ++ [e])) :
    DispatchRecorded relays m e t ∧
      ∀ fs u, exec (relayStep scrubText relays) m fs = some u →
        RecordedKept m u ∧ NotStartedAgain m u := by
  have hsnap : Snapshots m := by
    refine runs_inv (fun _ _ _ hi hs => Snapshots.step hi hs) ?_ hm
    intro j job hj
    rw [hjobs] at hj
    cases hj
  have hknown : StartedByJobs m := by
    refine runs_inv (fun _ _ _ hi hs => StartedByJobs.step hi hs) ?_ hm
    intro p hp
    rw [hstarted] at hp
    cases hp
  refine ⟨dispatchRecorded_of_snapshots hsnap (meets_append hmeets hm).1 ht, ?_⟩
  intro fs u hu
  have hsince : Since m u :=
    runs_inv (fun _ _ _ hi hs => Since.step hi hs) (Since.refl hknown) hu
  exact ⟨hsince.kept, hsince.notStartedAgain⟩

end Guarantees

/-! ## A handler called constructor -/

/-- The row is dispatched although its one handler neither ran nor has an
entry. -/
theorem constructor_handler_skipped :
    ¬ ∀ (relays : Nat → Relay) (es : List RelayEvent) (e : RelayEvent) (m t : RelayState),
      exec (relayStep id relays) orderState es = some m →
      relayStep id relays m e = some t → DispatchRecorded relays m e t := by
  intro hall
  have h := hall (fun _ => orderRelay "constructor" (by decide +kernel))
    orderTaken (.settle 0 [] "now" 0 "d1") _ _ rfl rfl
    "e1" _ _ rfl rfl rfl (by decide)
  obtain ⟨j, _, _, _, _, job, he, hj, -, hnames⟩ := h
  cases he
  cases hj
  exact absurd (hnames "constructor" (by decide)) (by decide)

/-- A handler is subscribed under any name of the right form, `constructor` too. -/
theorem orderRelay_subscribed (name : String) (h : HANDLER_NAME name = true) :
    Dispatcher.empty.subscribeAll [("order.placed", name)] =
      .ok (orderRelay name h).dispatcher := by
  simp only [Dispatcher.subscribeAll, Dispatcher.subscribe, dif_pos h, Dispatcher.handlersOf,
    Dispatcher.empty, List.lookup_nil, Option.getD_none, List.not_mem_nil, List.filter_nil,
    List.nil_append]
  rfl

/-- Processes that subscribe no handler of that name. -/
theorem sparesConstructor_of_subscribed {relays : Nat → Relay}
    {subscriptions : Nat → List (String × String)}
    (hsubscribed : ∀ i, Dispatcher.empty.subscribeAll (subscriptions i) = .ok (relays i).dispatcher)
    (hnone : ∀ i, ∀ s ∈ subscriptions i, s.2 ≠ "constructor") (s : RelayState) (e : RelayEvent) :
    SparesConstructor relays s e := by
  cases e with
  | settle j runs doneAt random eventId =>
      intro job _ hname
      rw [namesOf, Dispatcher.handlersOf_subscribeAll (hsubscribed job.relay)] at hname
      obtain ⟨subscribed, hmem, heq⟩ := List.mem_map.1 hname
      exact hnone job.relay subscribed (List.mem_filter.1 hmem).1 heq
  | _ => trivial

def mailRelay : Relay := orderRelay "mail" mail_named

theorem handler_delivery_mail :
    ∃ m t, exec (relayStep id fun _ => mailRelay) orderState orderTaken = some m ∧
      m.started = [(0, "mail")] ∧
      relayStep id (fun _ => mailRelay) m (.settle 0 [.ok] "now" 0 "d1") = some t ∧
      DispatchRecorded (fun _ => mailRelay) m (.settle 0 [.ok] "now" 0 "d1") t := by
  have hnone : ∀ s ∈ [("order.placed", "mail")], s.2 ≠ "constructor" := by
    intro s hs
    rw [List.mem_singleton.1 hs]
    decide
  have hspare : ∀ s e, SparesConstructor (fun _ => mailRelay) s e :=
    sparesConstructor_of_subscribed (fun _ => orderRelay_subscribed "mail" mail_named)
      fun _ => hnone
  exact ⟨_, _, rfl, rfl, rfl, (@handler_delivery id (fun _ => mailRelay) orderState _ _
    orderTaken _ rfl rfl rfl rfl (meets_of_forall hspare _ _)).1⟩

end CleanStack.Outbox
