import CleanStack.Lib.Snapshots
import CleanStack.Proofs.Settlements

/-!
# Accounting for exhausted deliveries

The settlement that makes a delivery a dead letter for the first time emits
the event and raises the counter of the endpoint in one transaction, provided
the outcome says whose endpoint it is. It does not say so when the lookup of
the endpoint failed or the processing threw: on the last attempt such an
outcome is still a death, and nothing is accounted for.

The status a job remembers is the status of the row its settlement reaches, by
`Snapshots`, so a first death is one.
-/

namespace CleanStack.Webhooks

open CleanStack.Lib CleanStack.Lib.Snapshots CleanStack.Drizzle CleanStack.Outbox

section Accounting

variable {κ : Type}

/-- The owner enables the endpoint, whether it was enabled or not. -/
def reenables (t : EndpointTable) (endpointId : String) : WorkerAction κ → Bool
  | .updateEndpoint args => args.id = endpointId && args.enabled = some true &&
      (t.find? endpointId).any fun r => r.organizationId = args.organizationId
  | _ => false

/-- The deliveries of the endpoint that died since one succeeded or the
endpoint was enabled, after one more step; `n` is their number before it. -/
def tally (endpointId : String) (s : WorkerState κ) (a : WorkerAction κ) (s' : WorkerState κ)
    (n : Nat) : Nat :=
  if succeeds endpointId s.db.deliveries s'.db.deliveries ||
    reenables s.db.endpoints endpointId a then 0
  else n + deaths endpointId s.db.deliveries s'.db.deliveries

def failuresSince (workers : Nat → WebhookWorker κ) (endpointId : String) :
    WorkerState κ → List (WorkerAction κ) → Nat → Nat
  | _, [], n => n
  | s, a :: as, n =>
      match workerStep workers s a with
      | some s' => failuresSince workers endpointId s' as (tally endpointId s a s' n)
      | none => n

/-- In one step, every death of a delivery of the endpoint is announced, once
and nothing else is, and the counter of the endpoint follows. -/
structure Accounts (endpointId : String) (s : WorkerState κ) (a : WorkerAction κ)
    (s' : WorkerState κ) : Prop where
  announced : ∀ id, exhaustions s'.db endpointId id =
    exhaustions s.db endpointId id +
      if Dies endpointId s.db.deliveries s'.db.deliveries id then 1 else 0
  counted : ∀ n n', failuresOf s.db.endpoints endpointId = some n →
    failuresOf s'.db.endpoints endpointId = some n' → n' = tally endpointId s a s' n

/-- The endpoint is there and enabled. -/
def IsEnabled (endpointId : String) (s : WorkerState κ) : Prop :=
  (findEnabledById s.db.endpoints endpointId).isSome

/-- A job whose endpoint was never found is not settled as a first death. -/
def Attributable (endpointId : String) (s : WorkerState κ) : WorkerAction κ → Prop
  | .settle j _ _ => ∀ i record processing outcome,
      s.jobs[j]? = some ⟨i, record, .processed processing outcome⟩ →
      record.endpointId = endpointId → processing.isLost = true →
      s.db.deliveries.rows.any (leased (leaseKeyOf record)) = true →
      record.status = .deadLetter ∨ record.attempts < WEBHOOK_MAX_ATTEMPTS
  | _ => True

end Accounting

/-! ## What the jobs remember -/

/-- What decides a first death and whose it is. -/
def outlook (r : DeliveryRow) : DeliveryStatus × String := (r.status, r.endpointId)

def DeliveryPhase.isOver {κ : Type} : DeliveryPhase κ → Bool
  | .over => true
  | _ => false

section Jobs

variable {κ : Type} {t t' : DeliveryTable} {jobs : List (DeliveryJob κ)} {job : DeliveryJob κ}
  {record : DeliveryRow} {j : Nat}

/-- The job goes on, and its delivery was not deleted. -/
def isHeld (t : DeliveryTable) (job : DeliveryJob κ) : Bool :=
  !job.phase.isOver && (t.find? job.record.id).isSome

def heldJobs (t : DeliveryTable) (jobs : List (DeliveryJob κ)) :
    List (Held String (DeliveryStatus × String)) :=
  openClaims (isHeld t) (fun job => snapshot outlook job.record) jobs

theorem heldJobs_congr (h : ∀ job ∈ jobs,
    (t'.find? job.record.id).isSome = (t.find? job.record.id).isSome) :
    heldJobs t' jobs = heldJobs t jobs := by
  rw [heldJobs, openClaims, List.filter_congr fun job hjob => ?_]
  · rfl
  · rw [isHeld, isHeld, h job hjob]

theorem isSome_find?_update {p : DeliveryRow → Bool} {f : DeliveryRow → DeliveryRow}
    (hf : ∀ r, Keyed.key (f r) = Keyed.key r) (id : String) :
    ((t.update p f hf).find? id).isSome = (t.find? id).isSome := by
  rw [Table.find?_update, Option.isSome_map]

theorem heldJobs_claimed (i : Nat) (rows : List DeliveryRow) :
    (heldJobs t (rows.map fun r => (⟨i, r, .claimed⟩ : DeliveryJob κ))).Sublist
      (rows.map (snapshot outlook)) := by
  have hall : rows.map (snapshot outlook) =
      (rows.map fun r => (⟨i, r, .claimed⟩ : DeliveryJob κ)).map
        fun job => snapshot outlook job.record := by
    rw [List.map_map]
    rfl
  rw [hall]
  exact List.filter_sublist.map _

/-- The claim a job ends, if its delivery is still there. -/
def endedBy (t : DeliveryTable) (record : DeliveryRow) :
    List (Held String (DeliveryStatus × String)) :=
  if (t.find? record.id).isSome then [snapshot outlook record] else []

theorem reachedBy_endedBy : ReachedBy (endedBy t record) t (leased (leaseKeyOf record)) := by
  intro r hr h
  obtain ⟨⟨hid, hattempts⟩, -⟩ := leased_iff.1 h
  refine ⟨snapshot outlook record, ?_, hid.symm, hattempts.symm⟩
  rw [endedBy, Table.find?_eq_some.2 ⟨hr, hid⟩]
  exact List.mem_singleton_self _

theorem heldJobs_close (hjob : jobs[j]? = some job) (hopen : job.phase.isOver = false) :
    (heldJobs t jobs).Perm (endedBy t job.record ++
      heldJobs t (jobs.modify j fun job => { job with phase := .over })) := by
  rw [endedBy]
  by_cases hthere : (t.find? job.record.id).isSome
  · rw [if_pos hthere]
    exact openClaims_modify_close hjob (by rw [isHeld, hopen, hthere]; rfl) rfl
  · have hgone : isHeld t job = false := by
      rw [isHeld, eq_false_of_ne_true hthere, Bool.and_false]
    rw [if_neg hthere, List.nil_append]
    exact .of_eq (openClaims_modify_same hjob hgone.symm rfl).symm

theorem recalls_of_remembered (h : Remembered outlook t (heldJobs t jobs))
    (hjob : jobs[j]? = some job) (hopen : job.phase.isOver = false) : Recalls t job.record := by
  intro r hr hleased
  obtain ⟨⟨hid, hattempts⟩, -⟩ := leased_iff.1 hleased
  have hheld : isHeld t job = true := by
    rw [isHeld, hopen, Table.find?_eq_some.2 ⟨hr, hid⟩]
    rfl
  exact Prod.mk.inj (h.current (snapshot outlook job.record)
    (List.mem_map_of_mem (List.mem_filter.2 ⟨List.mem_of_getElem? hjob, hheld⟩)) r hr hid
    hattempts.symm)

variable {outcome : Outcome} {failure : Option DeliveryFailure} {now : Time}

theorem remembered_writeVerdict (h : Remembered outlook t (heldJobs t jobs))
    (hjob : jobs[j]? = some job) (hopen : job.phase.isOver = false) :
    Remembered outlook (writeVerdict t job.record outcome failure now).1
      (heldJobs (writeVerdict t job.record outcome failure now).1
        (jobs.modify j fun job => { job with phase := .over })) := by
  rw [writeVerdict_eq, settle, heldJobs_congr fun _ _ => isSome_find?_update _ _]
  exact (h.subperm (heldJobs_close hjob hopen).symm.subperm).settle verdictSet_id
    verdictSet_attempts reachedBy_endedBy

theorem remembered_release (h : Remembered outlook t (heldJobs t jobs))
    (hjob : jobs[j]? = some job) (hopen : job.phase.isOver = false) :
    Remembered outlook (release t now (leaseKeyOf job.record)).1
      (heldJobs (release t now (leaseKeyOf job.record)).1
        (jobs.modify j fun job => { job with phase := .over })) := by
  rw [release, settle, heldJobs_congr fun _ _ => isSome_find?_update _ _]
  exact (h.subperm (heldJobs_close hjob hopen).symm.subperm).release
    (key_releasedSet now) (counter_releasedSet now) (fun _ => rfl) reachedBy_endedBy

end Jobs

section Step

variable {κ : Type} {workers : Nat → WebhookWorker κ} {s s' : WorkerState κ}
  {a : WorkerAction κ} {endpointId : String}

theorem remembered_step (h : Remembered outlook s.db.deliveries (heldJobs s.db.deliveries s.jobs))
    (hs : workerStep workers s a = some s') :
    Remembered outlook s'.db.deliveries (heldJobs s'.db.deliveries s'.jobs) := by
  cases a with
  | claim i locked limit =>
      cases hs
      have hheld := h.claim (claimPicked s.db.deliveries s.clock locked
          ⟨limit, (workers i).options.leaseSeconds⟩)
        (key_claimedSet s.clock (workers i).options.leaseSeconds)
        (counter_claimedSet s.clock (workers i).options.leaseSeconds) fun _ => rfl
      refine hheld.subperm ?_
      rw [heldJobs, openClaims_append]
      show (heldJobs _ s.jobs ++ _).Subperm _
      rw [heldJobs_congr fun _ _ => isSome_find?_update _ _, List.subperm_append_left]
      exact (heldJobs_claimed i _).subperm.trans ((orderBy_perm _ _).map _).subperm
  | process j processing =>
      obtain ⟨i, record, hjob, rfl⟩ := process_eq_some hs
      have hsame : heldJobs s.db.deliveries (s.withPhase j (.processed processing
          (outcomeOf (workers i) s.db.endpoints record processing))).jobs =
          heldJobs s.db.deliveries s.jobs := openClaims_modify_same hjob rfl rfl
      show Remembered outlook s.db.deliveries (heldJobs s.db.deliveries _)
      rw [hsame]
      exact h
  | settle j processNow random =>
      obtain ⟨i, record, processing, outcome, hjob, rfl⟩ := settle_eq_some hs
      show Remembered outlook (settleDelivery _ _ _ _ _).deliveries
        (heldJobs (settleDelivery _ _ _ _ _).deliveries _)
      rw [settleDelivery_deliveries]
      exact remembered_writeVerdict h hjob rfl
  | giveBack j =>
      obtain ⟨i, record, hjob, rfl⟩ := giveBack_eq_some hs
      exact remembered_release h hjob rfl
  | abandon j =>
      obtain ⟨job, -, rfl⟩ := Option.map_eq_some_iff.1 hs
      exact h.subperm (openClaims_modify_sublist (fun _ => rfl) j).subperm
  | enqueue r =>
      obtain ⟨hnew, deliveries, hins, rfl⟩ := enqueue_eq_some hs
      have hfresh : ∀ job ∈ s.jobs, (deliveries.find? job.record.id).isSome =
          (s.db.deliveries.find? job.record.id).isSome := by
        intro job hjob
        have hne := List.all_eq_true.1 (Bool.and_eq_true_iff.1 hnew).2 job hjob
        rw [Table.find?_insert hins, if_neg]
        exact fun hkey => of_decide_eq_true hne hkey.symm
      show Remembered outlook deliveries (heldJobs deliveries s.jobs)
      rw [heldJobs_congr hfresh]
      exact h.insert hins
  | createEndpoint endpoint eventTypes enabled =>
      obtain ⟨endpoints, -, rfl⟩ := Option.map_eq_some_iff.1 hs
      exact h
  | updateEndpoint args =>
      cases hs
      exact h
  | rotateSecret id organizationId secretCipher previousSecretCipher previousSecretExpiresAt =>
      cases hs
      exact h
  | deleteEndpoint id organizationId =>
      cases hs
      show Remembered outlook (deleteEndpoint s.db id organizationId).deliveries
        (heldJobs (deleteEndpoint s.db id organizationId).deliveries s.jobs)
      unfold deleteEndpoint
      split
      · refine h.delete (List.Sublist.subperm (List.Sublist.map _ ?_)) ?_
        · refine List.monotone_filter_right _ fun job hheld => ?_
          obtain ⟨hopen, hthere⟩ := Bool.and_eq_true_iff.1 hheld
          rw [Table.find?_delete] at hthere
          exact Bool.and_eq_true_iff.2 ⟨hopen, Option.isSome_of_isSome_filter _ _ hthere⟩
        · intro a ha
          obtain ⟨job, hjob, rfl⟩ := List.mem_map.1 ha
          obtain ⟨r, hr⟩ := Option.isSome_iff_exists.1
            (Bool.and_eq_true_iff.1 (List.mem_filter.1 hjob).2).2
          exact ⟨r, Table.find?_eq_some.1 hr⟩
      · exact h
  | wait n =>
      cases hs
      exact h

/-! ## Whose endpoint it is -/

theorem ownerOf_settleDelivery {options : WebhookDeliveryOptions} {db : WebhookDb}
    {delivery : DeliveryRow} {outcome : Outcome} {m : SettleMoment} :
    ownerOf (settleDelivery options db delivery outcome m).endpoints endpointId =
      ownerOf db.endpoints endpointId := by
  obtain ⟨failure, hfailure⟩ : ∃ failure, verdictFailure options delivery outcome m.random =
    failure := ⟨_, rfl⟩
  obtain ⟨wrote, hwrote⟩ : ∃ wrote, (writeVerdict db.deliveries delivery outcome failure
    m.now).2 = wrote := ⟨_, rfl⟩
  rcases settleDelivery_cases hfailure hwrote with ⟨hsame, -, -⟩ | ⟨o, -, -, -, hreset, -⟩ |
    ⟨o, db', hblock, hsame, -, -, -, -⟩
  · rw [hsame]
  · rw [hreset]
    exact ownerOf_update (f := resetSet) (fun _ => rfl) fun _ => rfl
  · rw [hblock, ownerOf_runTerminalFailureBlock, hsame]

/-- An endpoint that is there keeps its organization, or is deleted. -/
theorem ownerOf_step {o o' : String} (hs : workerStep workers s a = some s')
    (h : ownerOf s.db.endpoints endpointId = some o)
    (h' : ownerOf s'.db.endpoints endpointId = some o') : o' = o := by
  have hkept : ∀ {t}, ownerOf t endpointId = ownerOf s.db.endpoints endpointId →
      ownerOf t endpointId = some o' → o' = o := by
    intro t ht ho
    rw [ht, h] at ho
    exact (Option.some.inj ho).symm
  cases a with
  | claim i locked limit =>
      cases hs
      exact hkept rfl h'
  | process j processing =>
      obtain ⟨i, record, -, rfl⟩ := process_eq_some hs
      exact hkept rfl h'
  | settle j processNow random =>
      obtain ⟨i, record, processing, outcome, -, rfl⟩ := settle_eq_some hs
      exact hkept ownerOf_settleDelivery h'
  | giveBack j =>
      obtain ⟨i, record, -, rfl⟩ := giveBack_eq_some hs
      exact hkept rfl h'
  | abandon j =>
      obtain ⟨job, -, rfl⟩ := Option.map_eq_some_iff.1 hs
      exact hkept rfl h'
  | enqueue r =>
      obtain ⟨-, deliveries, -, rfl⟩ := enqueue_eq_some hs
      exact hkept rfl h'
  | createEndpoint endpoint eventTypes enabled =>
      obtain ⟨endpoints, hins, rfl⟩ := Option.map_eq_some_iff.1 hs
      obtain ⟨r, hr, -⟩ := Option.map_eq_some_iff.1 h
      refine hkept (t := endpoints) ?_ h'
      rw [ownerOf, ownerOf, Table.find?_insert_of_find? hins hr, hr]
  | updateEndpoint args =>
      cases hs
      exact hkept (ownerOf_update (updateSet_id args) (updateSet_organizationId args)) h'
  | rotateSecret id organizationId secretCipher previousSecretCipher previousSecretExpiresAt =>
      cases hs
      exact hkept (ownerOf_update
        (f := rotatedSet secretCipher previousSecretCipher previousSecretExpiresAt)
        (fun _ => rfl) fun _ => rfl) h'
  | deleteEndpoint id organizationId =>
      cases hs
      obtain ⟨r', hr', ho'⟩ := Option.map_eq_some_iff.1 h'
      have hold : s.db.endpoints.find? endpointId = some r' := by
        simp only [deleteEndpoint] at hr'
        split at hr'
        · rw [Table.find?_delete] at hr'
          exact (Option.filter_eq_some_iff.1 hr').1
        · exact hr'
      rw [ownerOf, hold, Option.map_some, ho'] at h
      exact Option.some.inj h
  | wait n =>
      cases hs
      exact hkept rfl h'

/-- The outcome of a processed job names the organization of its endpoint, or
it is a failure to be retried and the job is lost. -/
def Attributed (endpointId : String) (t : EndpointTable) (job : DeliveryJob κ) : Prop :=
  ∀ processing outcome o, job.phase = .processed processing outcome →
    job.record.endpointId = endpointId → ownerOf t endpointId = some o →
    if processing.isLost then ∃ error, outcome = failed error false none none
    else outcome.organizationId = some o

theorem attributed_of_phase {t : EndpointTable} {job : DeliveryJob κ}
    (h : ∀ processing outcome, job.phase ≠ .processed processing outcome) :
    Attributed endpointId t job :=
  fun processing outcome _ hphase => absurd hphase (h processing outcome)

theorem outcomeOf_lost {worker : WebhookWorker κ} {t : EndpointTable} {record : DeliveryRow}
    {processing : Processing κ} (h : processing.isLost = true) :
    ∃ error, outcomeOf worker t record processing = failed error false none none := by
  cases processing with
  | threw error => exact ⟨error, rfl⟩
  | lookupFailed error masterKey w => exact ⟨_, rfl⟩
  | lookedUp masterKey w => cases h

theorem processDelivery_organizationId {p : Platform κ} {settings : DeliverySettings}
    {masterKey : Option κ} {w : World} {delivery : DeliveryRow} {endpoint : EndpointRow}
    (h : w.endpoint = .ok (some endpoint)) :
    (processDelivery p settings masterKey w delivery).1.organizationId =
      some endpoint.organizationId := by
  simp only [processDelivery, h]
  split
  · split
    · rfl
    · rfl
  · cases masterKey with
    | none => rfl
    | some key =>
        dsimp only
        split
        · rfl
        · rfl

theorem attributed_outcomeOf {i : Nat} {record : DeliveryRow} {processing : Processing κ}
    (henabled : IsEnabled endpointId s) :
    Attributed endpointId s.db.endpoints ⟨i, record, .processed processing
      (outcomeOf (workers i) s.db.endpoints record processing)⟩ := by
  intro processing' outcome o hphase hrecord howner
  cases hphase
  split
  · next hlost => exact outcomeOf_lost hlost
  · next hfound =>
      cases processing with
      | threw error => exact absurd rfl hfound
      | lookupFailed error masterKey w => exact absurd rfl hfound
      | lookedUp masterKey w =>
          obtain ⟨r, hr⟩ := Option.isSome_iff_exists.1 henabled
          have hfind : s.db.endpoints.find? endpointId = some r :=
            (Option.filter_eq_some_iff.1 hr).1
          rw [ownerOf, hfind, Option.map_some] at howner
          rw [outcomeOf, hrecord, hr]
          exact (processDelivery_organizationId rfl).trans howner

theorem attributed_step (henabled : IsEnabled endpointId s)
    (h : ∀ job ∈ s.jobs, Attributed endpointId s.db.endpoints job)
    (hs : workerStep workers s a = some s') :
    ∀ job ∈ s'.jobs, Attributed endpointId s'.db.endpoints job := by
  obtain ⟨r, hr⟩ := Option.isSome_iff_exists.1 henabled
  have howner : ownerOf s.db.endpoints endpointId = some r.organizationId := by
    rw [ownerOf, (Option.filter_eq_some_iff.1 hr).1, Option.map_some]
  have hkept : ∀ job : DeliveryJob κ, Attributed endpointId s.db.endpoints job →
      Attributed endpointId s'.db.endpoints job := by
    intro job hjob processing outcome o hphase hrecord ho
    obtain rfl := ownerOf_step hs howner ho
    exact hjob processing outcome _ hphase hrecord howner
  have hover : ∀ (phase : DeliveryPhase κ) j, (∀ processing outcome,
      phase ≠ .processed processing outcome) → ∀ job ∈ (s.withPhase j phase).jobs,
      Attributed endpointId s'.db.endpoints job := by
    intro phase j hphase job hjob
    rcases mem_modify hjob with hold | ⟨job, -, rfl⟩
    · exact hkept job (h job hold)
    · exact attributed_of_phase hphase
  cases a with
  | claim i locked limit =>
      cases hs
      intro job hjob
      rcases List.mem_append.1 hjob with hold | hnew
      · exact hkept job (h job hold)
      · obtain ⟨r, -, rfl⟩ := List.mem_map.1 hnew
        exact attributed_of_phase fun _ _ h => by cases h
  | process j processing =>
      obtain ⟨i, record, hjob, rfl⟩ := process_eq_some hs
      intro job hmem
      rcases mem_modify hmem with hold | ⟨job', hjob', rfl⟩
      · exact hkept job (h job hold)
      · rw [hjob] at hjob'
        cases hjob'
        exact hkept _ (attributed_outcomeOf henabled)
  | settle j processNow random =>
      obtain ⟨i, record, processing, outcome, -, rfl⟩ := settle_eq_some hs
      exact hover .over j fun _ _ h => by cases h
  | giveBack j =>
      obtain ⟨i, record, -, rfl⟩ := giveBack_eq_some hs
      exact hover .over j fun _ _ h => by cases h
  | abandon j =>
      obtain ⟨job, -, rfl⟩ := Option.map_eq_some_iff.1 hs
      exact hover .over j fun _ _ h => by cases h
  | enqueue r =>
      obtain ⟨-, deliveries, -, rfl⟩ := enqueue_eq_some hs
      exact fun job hjob => hkept job (h job hjob)
  | createEndpoint endpoint eventTypes enabled =>
      obtain ⟨endpoints, -, rfl⟩ := Option.map_eq_some_iff.1 hs
      exact fun job hjob => hkept job (h job hjob)
  | updateEndpoint args =>
      cases hs
      exact fun job hjob => hkept job (h job hjob)
  | rotateSecret id organizationId secretCipher previousSecretCipher previousSecretExpiresAt =>
      cases hs
      exact fun job hjob => hkept job (h job hjob)
  | deleteEndpoint id organizationId =>
      cases hs
      exact fun job hjob => hkept job (h job hjob)
  | wait n =>
      cases hs
      exact fun job hjob => hkept job (h job hjob)

/-! ## The account of a step -/

theorem tally_still {n : Nat} (hstill : Still s.db.deliveries s'.db.deliveries)
    (hkeeps : reenables s.db.endpoints endpointId a = false) :
    tally endpointId s a s' n = n := by
  rw [tally, hstill.succeeds_eq, hkeeps, hstill.deaths_eq]
  rfl

/-- A step that moves no delivery and no counter has nothing to account for. -/
theorem accounts_still (hstill : Still s.db.deliveries s'.db.deliveries)
    (houtbox : s'.db.outbox = s.db.outbox)
    (hkeeps : reenables s.db.endpoints endpointId a = false)
    (hcount : ∀ n n', failuresOf s.db.endpoints endpointId = some n →
      failuresOf s'.db.endpoints endpointId = some n' → n' = n) :
    Accounts endpointId s a s' := by
  refine ⟨fun id => ?_, fun n n' hn hn' => ?_⟩
  · rw [exhaustions, houtbox, if_neg (hstill.not_dies id)]
    rfl
  · rw [tally_still hstill hkeeps]
    exact hcount n n' hn hn'

theorem failures_same {t t' : EndpointTable} {n n' : Nat} (ht : t' = t)
    (hn : failuresOf t endpointId = some n) (hn' : failuresOf t' endpointId = some n') :
    n' = n := by
  rw [ht, hn] at hn'
  exact (Option.some.inj hn').symm

theorem reenables_updateEndpoint {t : EndpointTable} {args : UpdateEndpointArgs}
    {r : WebhookEndpointRow} (hr : t.find? endpointId = some r) :
    reenables (κ := κ) t endpointId (.updateEndpoint args) =
      (ownedBy args.id args.organizationId r && args.enabled = some true) := by
  have hid : r.id = endpointId := (Table.find?_eq_some.1 hr).2
  have hsym : decide (args.id = r.id) = decide (r.id = args.id) :=
    decide_eq_decide.2 eq_comm
  rw [reenables, hr, ownedBy, Option.any_some, ← hid, hsym, Bool.and_right_comm]

theorem accounts_updateEndpoint {args : UpdateEndpointArgs}
    (hdeliveries : s'.db.deliveries = s.db.deliveries) (houtbox : s'.db.outbox = s.db.outbox)
    (hendpoints : s'.db.endpoints = updateEndpoint s.db.endpoints args) :
    Accounts endpointId s (.updateEndpoint args) s' := by
  have hstill : Still s.db.deliveries s'.db.deliveries := by
    rw [hdeliveries]
    exact still_refl _
  by_cases hre : reenables (κ := κ) s.db.endpoints endpointId (.updateEndpoint args) = true
  · refine ⟨fun id => ?_, fun n n' hn hn' => ?_⟩
    · rw [exhaustions, houtbox, if_neg (hstill.not_dies id)]
      rfl
    · obtain ⟨r, hr, -⟩ := Option.map_eq_some_iff.1 hn
      rw [tally, hre, Bool.or_true, if_pos rfl]
      rw [reenables_updateEndpoint hr, Bool.and_eq_true, decide_eq_true_eq] at hre
      rw [hendpoints, failuresOf, updateEndpoint, Table.find?_update, hr, Option.map_some,
        Option.map_some, if_pos hre.1, updateSet, if_pos hre.2, Option.some.injEq] at hn'
      exact hn'.symm
  · refine accounts_still hstill houtbox (eq_false_of_ne_true hre) fun n n' hn hn' => ?_
    obtain ⟨r, hr, hn⟩ := Option.map_eq_some_iff.1 hn
    rw [reenables_updateEndpoint hr, Bool.and_eq_true, decide_eq_true_eq, not_and] at hre
    rw [hendpoints, failuresOf, updateEndpoint, Table.find?_update, hr, Option.map_some,
      Option.map_some, Option.some.injEq] at hn'
    rw [← hn', ← hn]
    split
    · next howned => rw [updateSet, if_neg (hre howned)]
    · rfl

/-- A settlement of another endpoint's delivery. -/
theorem accounts_settle_other {i j : Nat} {record : DeliveryRow} {outcome : Outcome}
    {m : SettleMoment} {processNow : Time} {random : Draw}
    (hrec : Recalls s.db.deliveries record) (hne : record.endpointId ≠ endpointId)
    (hdb : s'.db = settleDelivery (workers i).options s.db record outcome m) :
    Accounts endpointId s (.settle j processNow random) s' := by
  have hdies : ∀ id, ¬ Dies endpointId s.db.deliveries s'.db.deliveries id := by
    intro id
    rw [hdb, settleDelivery_deliveries, dies_writeVerdict hrec]
    exact fun h => hne h.2.1
  have hsucceeds : succeeds endpointId s.db.deliveries s'.db.deliveries = false := by
    rw [← Bool.not_eq_true, hdb, settleDelivery_deliveries, succeeds_writeVerdict hrec]
    exact fun h => hne h.1
  have hdeaths : deaths endpointId s.db.deliveries s'.db.deliveries = 0 := by
    rw [deaths_eq (k := record.id) (P := False) fun id => by simp [hdies id], if_neg id]
  have hbeside : exhaustions s'.db endpointId = exhaustions s.db endpointId ∧
      failuresOf s'.db.endpoints endpointId = failuresOf s.db.endpoints endpointId := by
    rw [hdb]
    obtain ⟨failure, hfailure⟩ : ∃ failure, verdictFailure (workers i).options record outcome
      m.random = failure := ⟨_, rfl⟩
    obtain ⟨wrote, hwrote⟩ : ∃ wrote, (writeVerdict s.db.deliveries record outcome failure
      m.now).2 = wrote := ⟨_, rfl⟩
    rcases settleDelivery_cases hfailure hwrote with
      ⟨hends, hout, -⟩ | ⟨o, -, -, -, hreset, hout⟩ | ⟨o, db', hblock, hends, hout, -⟩
    · exact ⟨by funext id; rw [exhaustions, hout]; rfl, by rw [hends]⟩
    · refine ⟨by funext id; rw [exhaustions, hout]; rfl, ?_⟩
      rw [hreset]
      exact congrArg (Option.map _) (find?_other (f := resetSet) (fun _ => rfl) hne)
    · rw [hblock]
      refine ⟨?_, by rw [failuresOf_runTerminalFailureBlock_other hne, hends]⟩
      funext id
      rw [exhaustions_runTerminalFailureBlock, if_neg fun h => hne h.1, exhaustions, hout]
      rfl
  refine ⟨fun id => by rw [hbeside.1, if_neg (hdies id)]; rfl, fun n n' hn hn' => ?_⟩
  rw [hbeside.2, hn] at hn'
  rw [tally, hsucceeds, hdeaths, ← Option.some.inj hn']
  rfl

theorem verdictFailure_lost (options : WebhookDeliveryOptions) {record : DeliveryRow}
    (error : String) (random : Draw)
    (h : record.status = .deadLetter ∨ record.attempts < WEBHOOK_MAX_ATTEMPTS) :
    (verdictFailure options record (failed error false none none) random).any
      (isFirstDeath record) = false := by
  rw [verdictFailure, failed]
  dsimp only
  rw [Option.any_some, isFirstDeath, failureOf, if_neg Bool.false_ne_true]
  dsimp only [failureSchedule]
  rcases h with hdead | hearly
  · simp [hdead]
  · by_cases hdead : record.status = .deadLetter
    · simp [hdead]
    · simp [hdead, Int.not_le.2 hearly]

/-- A settlement of a delivery of the endpoint. -/
theorem accounts_settle {i j : Nat} {record : DeliveryRow} {processing : Processing κ}
    {outcome : Outcome} {m : SettleMoment} {processNow : Time} {random : Draw} {o : String}
    (hrec : Recalls s.db.deliveries record)
    (howner : ownerOf s.db.endpoints record.endpointId = some o)
    (hattributed : if processing.isLost then ∃ error, outcome = failed error false none none
      else outcome.organizationId = some o)
    (hearly : processing.isLost = true →
      s.db.deliveries.rows.any (leased (leaseKeyOf record)) = true →
      record.status = .deadLetter ∨ record.attempts < WEBHOOK_MAX_ATTEMPTS)
    (hdb : s'.db = settleDelivery (workers i).options s.db record outcome m) :
    Accounts record.endpointId s (.settle j processNow random) s' := by
  obtain ⟨failure, hfailure⟩ : ∃ failure, verdictFailure (workers i).options record outcome
    m.random = failure := ⟨_, rfl⟩
  obtain ⟨wrote, hwrote⟩ : ∃ wrote, (writeVerdict s.db.deliveries record outcome failure
    m.now).2 = wrote := ⟨_, rfl⟩
  have hdies : ∀ id, Dies record.endpointId s.db.deliveries s'.db.deliveries id ↔
      id = record.id ∧ (wrote = true ∧ failure.any (isFirstDeath record) = true) := by
    intro id
    rw [hdb, settleDelivery_deliveries, hfailure, dies_writeVerdict hrec, hwrote]
    simp
  have hsucceeds : succeeds record.endpointId s.db.deliveries s'.db.deliveries = true ↔
      wrote = true ∧ failure = none := by
    rw [hdb, settleDelivery_deliveries, hfailure, succeeds_writeVerdict hrec, hwrote]
    simp
  have hdeaths := deaths_eq hdies
  have hnamed : ∀ o', outcome.organizationId = some o' → ∀ r,
      s.db.endpoints.find? record.endpointId = some r → r.organizationId = o' := by
    intro o' horg r hr
    rw [ownerOf, hr, Option.map_some, Option.some.injEq] at howner
    split at hattributed
    · obtain ⟨error, rfl⟩ := hattributed
      cases horg
    · rw [hattributed, Option.some.injEq] at horg
      exact howner.trans horg
  rcases settleDelivery_cases hfailure hwrote with
    ⟨hends, hout, hquiet⟩ | ⟨o', horg, hw, hnone, hreset, hout⟩ |
    ⟨o', db', hblock, hends, hout, horg, hw, hfirst⟩
  · -- Nothing was due: the row was lost, or no organization was known.
    have hnothing : ¬ (wrote = true ∧ (failure = none ∨
        failure.any (isFirstDeath record) = true)) := by
      rintro ⟨hw, hdue⟩
      by_cases hlost : processing.isLost = true
      · rw [if_pos hlost] at hattributed
        obtain ⟨error, rfl⟩ := hattributed
        have hreach : s.db.deliveries.rows.any (leased (leaseKeyOf record)) = true := by
          rw [hw, writeVerdict_eq] at hwrote
          exact hwrote
        have hlate := verdictFailure_lost (workers i).options error m.random
          (hearly hlost hreach)
        rw [hfailure] at hlate
        rcases hdue with hnone | hfirst
        · rw [hnone] at hfailure
          cases hfailure
        · rw [hlate] at hfirst
          cases hfirst
      · rw [if_neg hlost] at hattributed
        exact hquiet ⟨hw, by rw [hattributed]; rfl, hdue⟩
    have hnot : ¬ (wrote = true ∧ failure.any (isFirstDeath record) = true) :=
      fun h => hnothing ⟨h.1, .inr h.2⟩
    have hsuccess : succeeds record.endpointId s.db.deliveries s'.db.deliveries = false := by
      rw [← Bool.not_eq_true, hsucceeds]
      exact fun h => hnothing ⟨h.1, .inl h.2⟩
    refine ⟨fun id => ?_, fun n n' hn hn' => ?_⟩
    · rw [if_neg fun h => hnot ((hdies id).1 h).2, exhaustions, hdb, hout]
      rfl
    · rw [hdb, hends, hn] at hn'
      rw [tally, hsuccess, hdeaths, if_neg hnot, ← Option.some.inj hn']
      rfl
  · have hnot : ¬ (wrote = true ∧ failure.any (isFirstDeath record) = true) := by
      rw [hnone]
      exact fun h => Bool.noConfusion h.2
    refine ⟨fun id => ?_, fun n n' hn hn' => ?_⟩
    · rw [if_neg fun h => hnot ((hdies id).1 h).2, exhaustions, hdb, hout]
      rfl
    · obtain ⟨r, hr, hn⟩ := Option.map_eq_some_iff.1 hn
      have hzero : failuresOf s'.db.endpoints record.endpointId = some 0 := by
        rw [hdb, hreset, failuresOf, resetFailure,
          find?_owned (f := resetSet) (fun _ => rfl) hr (hnamed o' horg r hr)]
        rfl
      rw [hzero] at hn'
      rw [tally, hsucceeds.2 ⟨hw, hnone⟩, Bool.true_or, if_pos rfl, ← Option.some.inj hn']
  · have hdeath : wrote = true ∧ failure.any (isFirstDeath record) = true := ⟨hw, hfirst⟩
    have hsuccess : succeeds record.endpointId s.db.deliveries s'.db.deliveries = false := by
      rw [← Bool.not_eq_true, hsucceeds]
      rintro ⟨-, hnone⟩
      rw [hnone] at hfirst
      cases hfirst
    refine ⟨fun id => ?_, fun n n' hn hn' => ?_⟩
    · rw [hdb, hblock, exhaustions_runTerminalFailureBlock, exhaustions, hout]
      congr 1
      refine if_congr ?_ rfl rfl
      rw [← hblock, ← hdb, hdies id]
      exact ⟨fun h => ⟨h.2.symm, hdeath⟩, fun h => ⟨rfl, h.1.symm⟩⟩
    · obtain ⟨r, hr, -⟩ := Option.map_eq_some_iff.1 hn
      have howner' : ownerOf db'.endpoints record.endpointId = some o' := by
        rw [hends, ownerOf, hr, Option.map_some, hnamed o' horg r hr]
      rw [hdb, hblock, failuresOf_runTerminalFailureBlock howner', hends, hn, Option.map_some,
        Option.some.injEq] at hn'
      rw [tally, hsuccess, hdeaths, if_pos hdeath, ← hn']
      rfl

/-- What holds in every state in which the endpoint is there. -/
structure Sound (endpointId : String) (s : WorkerState κ) : Prop where
  remembered : Remembered outlook s.db.deliveries (heldJobs s.db.deliveries s.jobs)
  attributed : ∀ job ∈ s.jobs, Attributed endpointId s.db.endpoints job

theorem sound_step (h : Sound endpointId s) (henabled : IsEnabled endpointId s)
    (hs : workerStep workers s a = some s') : Sound endpointId s' :=
  ⟨remembered_step h.remembered hs, attributed_step henabled h.attributed hs⟩

theorem ownerOf_of_isEnabled (h : IsEnabled endpointId s) :
    ∃ o, ownerOf s.db.endpoints endpointId = some o := by
  obtain ⟨r, hr⟩ := Option.isSome_iff_exists.1 h
  exact ⟨r.organizationId, by rw [ownerOf, (Option.filter_eq_some_iff.1 hr).1, Option.map_some]⟩

theorem accounts_step (h : Sound endpointId s) (henabled : IsEnabled endpointId s)
    (ha : Attributable endpointId s a) (hs : workerStep workers s a = some s') :
    Accounts endpointId s a s' := by
  obtain ⟨o, howner⟩ := ownerOf_of_isEnabled henabled
  have hquiet := fun ha => still_step ha hs
  cases a with
  | settle j processNow random =>
      obtain ⟨i, record, processing, outcome, hjob, rfl⟩ := settle_eq_some hs
      have hrec := recalls_of_remembered h.remembered hjob rfl
      by_cases hours : record.endpointId = endpointId
      · subst hours
        exact accounts_settle hrec howner
          (h.attributed _ (List.mem_of_getElem? hjob) processing outcome o rfl rfl howner)
          (ha i record processing outcome hjob rfl) rfl
      · exact accounts_settle_other hrec hours rfl
  | updateEndpoint args =>
      cases hs
      exact accounts_updateEndpoint rfl rfl rfl
  | claim i locked limit =>
      obtain ⟨hstill, hout⟩ := hquiet rfl
      cases hs
      exact accounts_still hstill hout rfl fun _ _ => failures_same rfl
  | process j processing =>
      obtain ⟨hstill, hout⟩ := hquiet rfl
      obtain ⟨i, record, -, rfl⟩ := process_eq_some hs
      exact accounts_still hstill hout rfl fun _ _ => failures_same rfl
  | giveBack j =>
      obtain ⟨hstill, hout⟩ := hquiet rfl
      obtain ⟨i, record, -, rfl⟩ := giveBack_eq_some hs
      exact accounts_still hstill hout rfl fun _ _ => failures_same rfl
  | abandon j =>
      obtain ⟨hstill, hout⟩ := hquiet rfl
      obtain ⟨job, -, rfl⟩ := Option.map_eq_some_iff.1 hs
      exact accounts_still hstill hout rfl fun _ _ => failures_same rfl
  | enqueue r =>
      obtain ⟨hstill, hout⟩ := hquiet rfl
      obtain ⟨-, deliveries, -, rfl⟩ := enqueue_eq_some hs
      exact accounts_still hstill hout rfl fun _ _ => failures_same rfl
  | createEndpoint endpoint eventTypes enabled =>
      obtain ⟨hstill, hout⟩ := hquiet rfl
      obtain ⟨endpoints, hins, rfl⟩ := Option.map_eq_some_iff.1 hs
      refine accounts_still hstill hout rfl fun n n' hn hn' => ?_
      obtain ⟨r, hr, hn⟩ := Option.map_eq_some_iff.1 hn
      rw [failuresOf, Table.find?_insert_of_find? hins hr, Option.map_some, hn] at hn'
      exact (Option.some.inj hn').symm
  | rotateSecret id organizationId secretCipher previousSecretCipher previousSecretExpiresAt =>
      obtain ⟨hstill, hout⟩ := hquiet rfl
      cases hs
      refine accounts_still hstill hout rfl fun n n' hn hn' => ?_
      have hsame : failuresOf (applySecretRotation s.db.endpoints id organizationId secretCipher
          previousSecretCipher previousSecretExpiresAt) endpointId =
          failuresOf s.db.endpoints endpointId :=
        failuresOf_update
          (f := rotatedSet secretCipher previousSecretCipher previousSecretExpiresAt)
          (fun _ => rfl) fun _ => rfl
      exact Option.some.inj (hn'.symm.trans (hsame.trans hn))
  | deleteEndpoint id organizationId =>
      obtain ⟨hstill, hout⟩ := hquiet rfl
      cases hs
      refine accounts_still hstill hout rfl fun n n' hn hn' => ?_
      obtain ⟨r', hr', hn'⟩ := Option.map_eq_some_iff.1 hn'
      have hold : s.db.endpoints.find? endpointId = some r' := by
        simp only [deleteEndpoint] at hr'
        split at hr'
        · rw [Table.find?_delete] at hr'
          exact (Option.filter_eq_some_iff.1 hr').1
        · exact hr'
      rw [failuresOf, hold, Option.map_some, hn'] at hn
      exact Option.some.inj hn
  | wait n =>
      obtain ⟨hstill, hout⟩ := hquiet rfl
      cases hs
      exact accounts_still hstill hout rfl fun _ _ => failures_same rfl

/-! ## The run -/

def isGone (r : DeliveryRow) : Bool := r.status = .deadLetter || r.status = .success

theorem isGone_iff {r : DeliveryRow} :
    isGone r = true ↔ r.status = .deadLetter ∨ r.status = .success := by
  rw [isGone, Bool.or_eq_true, decide_eq_true_eq, decide_eq_true_eq]

theorem dead_of_dead {options : WebhookDeliveryOptions} {record : DeliveryRow}
    {outcome : Outcome} {random : Draw} {failure : DeliveryFailure}
    (hdead : record.status = .deadLetter)
    (h : verdictFailure options record outcome random = some failure) :
    failure.deadLetter = true := by
  rw [verdictFailure] at h
  split at h
  · next error terminal _ =>
      cases h
      rw [failureOf]
      split
      · rfl
      · simp [failureSchedule, hdead]
  · cases h

/-- A delivery stays with its endpoint, and does not come back from success, nor
from death but by success. -/
theorem gone_of_gone (h : Sound endpointId s) (hs : workerStep workers s a = some s')
    {id : String} {r r' : DeliveryRow} (hr : s.db.deliveries.find? id = some r)
    (hr' : s'.db.deliveries.find? id = some r') :
    r'.endpointId = r.endpointId ∧ (isGone r = true → isGone r' = true) ∧
      (r.status = .success → r'.status = .success) := by
  by_cases hsettle : isSettle a = true
  · cases a with
    | settle j processNow random =>
        obtain ⟨i, record, processing, outcome, hjob, rfl⟩ := settle_eq_some hs
        have hrec := recalls_of_remembered h.remembered hjob rfl
        have hr' : (settleDelivery (workers i).options s.db record outcome
            ⟨s.clock, processNow, random⟩).deliveries.find? id = some r' := hr'
        rw [settleDelivery_deliveries, find?_writeVerdict, hr, Option.map_some,
          Option.some.injEq] at hr'
        split at hr'
        · next hleased =>
            subst hr'
            have hstatus := (hrec r (Table.find?_eq_some.1 hr).1 hleased).1
            have hopen := open_of_unsettled (leased_iff.1 hleased).2
            cases hfailure : verdictFailure (workers i).options record outcome random with
            | none => exact ⟨rfl, fun _ => rfl, fun _ => rfl⟩
            | some failure =>
                refine ⟨rfl, fun hgone => ?_, fun hsuccess => absurd hsuccess hopen⟩
                have hdead := (isGone_iff.1 hgone).resolve_right hopen
                rw [isGone_iff, verdictSet, failedSet,
                  dead_of_dead (hstatus.symm.trans hdead) hfailure]
                exact .inl rfl
        · subst hr'
          exact ⟨rfl, fun h => h, fun h => h⟩
    | _ => cases hsettle
  · obtain ⟨hstatus, howner⟩ :=
      (still_step (eq_false_of_ne_true hsettle) hs).1 id r r' hr hr'
    refine ⟨howner, fun hgone => ?_, fun hsuccess => hstatus.trans hsuccess⟩
    rw [isGone_iff, hstatus]
    exact isGone_iff.1 hgone

/-- A delivery is there as long as its endpoint is. -/
theorem there_step (hs : workerStep workers s a = some s') {id : String} {r : DeliveryRow}
    (hr : s.db.deliveries.find? id = some r) (hours : r.endpointId = endpointId)
    (hthere : ownerOf s'.db.endpoints endpointId ≠ none) :
    ∃ r', s'.db.deliveries.find? id = some r' := by
  have hupdate : ∀ {p : DeliveryRow → Bool} {f : DeliveryRow → DeliveryRow}
      (hf : ∀ r, Keyed.key (f r) = Keyed.key r),
      ∃ r', (s.db.deliveries.update p f hf).find? id = some r' := by
    intro p f hf
    rw [Table.find?_update, hr]
    exact ⟨_, rfl⟩
  cases a with
  | claim i locked limit =>
      cases hs
      exact hupdate (key_claimedSet s.clock (workers i).options.leaseSeconds)
  | process j processing =>
      obtain ⟨i, record, -, rfl⟩ := process_eq_some hs
      exact ⟨r, hr⟩
  | settle j processNow random =>
      obtain ⟨i, record, processing, outcome, -, rfl⟩ := settle_eq_some hs
      show ∃ r', (settleDelivery _ _ _ _ _).deliveries.find? id = some r'
      rw [settleDelivery_deliveries, writeVerdict_eq]
      exact hupdate verdictSet_id
  | giveBack j =>
      obtain ⟨i, record, -, rfl⟩ := giveBack_eq_some hs
      exact hupdate (key_releasedSet s.clock)
  | abandon j =>
      obtain ⟨job, -, rfl⟩ := Option.map_eq_some_iff.1 hs
      exact ⟨r, hr⟩
  | enqueue r =>
      obtain ⟨-, deliveries, hins, rfl⟩ := enqueue_eq_some hs
      exact ⟨_, Table.find?_insert_of_find? hins hr⟩
  | createEndpoint endpoint eventTypes enabled =>
      obtain ⟨endpoints, -, rfl⟩ := Option.map_eq_some_iff.1 hs
      exact ⟨r, hr⟩
  | updateEndpoint args =>
      cases hs
      exact ⟨r, hr⟩
  | rotateSecret id organizationId secretCipher previousSecretCipher previousSecretExpiresAt =>
      cases hs
      exact ⟨r, hr⟩
  | deleteEndpoint owned organizationId =>
      cases hs
      have hthere : ownerOf (deleteEndpoint s.db owned organizationId).endpoints endpointId ≠
        none := hthere
      show ∃ r', (deleteEndpoint s.db owned organizationId).deliveries.find? id = some r'
      unfold deleteEndpoint at hthere ⊢
      split
      · next howned =>
          rw [if_pos howned] at hthere
          have hne : r.endpointId ≠ owned := by
            rintro rfl
            obtain ⟨e, he⟩ := Option.isSome_iff_exists.1 howned
            obtain ⟨he, horg⟩ := Option.filter_eq_some_iff.1 he
            refine hthere ?_
            rw [ownerOf, Table.find?_delete, ← hours, he, Option.filter_some, if_neg]
            · rfl
            · rw [Bool.not_eq_true', Bool.not_eq_false]
              exact ownedBy_iff.2 ⟨(Table.find?_eq_some.1 he).2, of_decide_eq_true horg⟩
          refine ⟨r, ?_⟩
          rw [Table.find?_delete, hr, Option.filter_some, if_pos]
          rw [decide_eq_false hne]
          rfl
      · exact ⟨r, hr⟩
  | wait n =>
      cases hs
      exact ⟨r, hr⟩

/-- A delivery of the endpoint has died or succeeded. -/
def GoneIn (endpointId id : String) (s : WorkerState κ) : Prop :=
  ownerOf s.db.endpoints endpointId ≠ none → ∃ r, s.db.deliveries.find? id = some r ∧
    r.endpointId = endpointId ∧ isGone r = true

theorem gone_step {id : String} (h : Sound endpointId s) (henabled : IsEnabled endpointId s)
    (hs : workerStep workers s a = some s') (hgone : GoneIn endpointId id s) :
    GoneIn endpointId id s' := by
  intro hthere
  obtain ⟨o, howner⟩ := ownerOf_of_isEnabled henabled
  obtain ⟨r, hr, hours, hgone⟩ := hgone (by rw [howner]; nofun)
  obtain ⟨r', hr'⟩ := there_step hs hr hours hthere
  obtain ⟨hendpoint, hstays, -⟩ := gone_of_gone h hs hr hr'
  exact ⟨r', hr', hendpoint.trans hours, hstays hgone⟩

theorem exhaustions_step {id : String} (h : Sound endpointId s)
    (henabled : IsEnabled endpointId s) (ha : Attributable endpointId s a)
    (hs : workerStep workers s a = some s') :
    exhaustions s'.db endpointId id = exhaustions s.db endpointId id ∨
      ¬ GoneIn endpointId id s ∧ GoneIn endpointId id s' ∧
        exhaustions s'.db endpointId id = exhaustions s.db endpointId id + 1 := by
  rw [(accounts_step h henabled ha hs).announced id]
  split
  · next hdies =>
      obtain ⟨r, hr, halive⟩ := Option.map_eq_some_iff.1 hdies.1
      obtain ⟨r', hr', hdead⟩ := Option.map_eq_some_iff.1 hdies.2
      obtain ⟨hours, halive⟩ := Prod.mk.inj halive
      obtain ⟨hendpoint, -, hsuccess⟩ := gone_of_gone h hs hr hr'
      refine .inr ⟨fun hgone => ?_, fun _ => ⟨r', hr', hendpoint.trans hours, ?_⟩, rfl⟩
      · obtain ⟨o, howner⟩ := ownerOf_of_isEnabled henabled
        obtain ⟨r₀, hr₀, -, hgone⟩ := hgone (by rw [howner]; nofun)
        rw [hr] at hr₀
        cases hr₀
        rcases isGone_iff.1 hgone with hdead₀ | hsuccess₀
        · exact of_decide_eq_false halive hdead₀
        · rw [isDeadLetter, hsuccess hsuccess₀] at hdead
          cases hdead
      · exact isGone_iff.2 (.inl (of_decide_eq_true hdead))
  · exact .inl rfl

theorem counted_run {as : List (WorkerAction κ)} :
    ∀ {s s' : WorkerState κ} {n n' : Nat}, Sound endpointId s →
      Meets (workerStep workers) (fun s a => IsEnabled endpointId s ∧ Attributable endpointId s a)
        s as → exec (workerStep workers) s as = some s' →
      failuresOf s.db.endpoints endpointId = some n →
      failuresOf s'.db.endpoints endpointId = some n' →
      n' = failuresSince workers endpointId s as n := by
  induction as with
  | nil =>
      intro s s' n n' _ _ h hn hn'
      cases h
      exact Option.some.inj (hn'.symm.trans hn)
  | cons a as ih =>
      intro s s' n n' hsound hmeets h hn hn'
      obtain ⟨m, hm, hrest⟩ := exec_cons_iff.1 h
      obtain ⟨⟨henabled, ha⟩, hmeets⟩ := hmeets
      have hmeets := hmeets m hm
      have hcounted := (accounts_step hsound henabled ha hm).counted n
      rw [failuresSince, hm]
      dsimp only
      cases hk : failuresOf m.db.endpoints endpointId with
      | some k =>
          rw [← hcounted k hn hk]
          exact ih (sound_step hsound henabled hm) hmeets hrest hk hn'
      | none =>
          -- The endpoint was deleted, and the run is over.
          cases as with
          | nil =>
              cases hrest
              rw [hk] at hn'
              cases hn'
          | cons b bs =>
              obtain ⟨o, howner⟩ := ownerOf_of_isEnabled hmeets.1.1
              obtain ⟨r, hr, -⟩ := Option.map_eq_some_iff.1 howner
              rw [failuresOf, hr] at hk
              cases hk

/-- In a run in which the endpoint stays enabled and no job without its endpoint
settles a last attempt, the first death of each of its deliveries is announced
in the transaction that writes it, once, and the counter is the number of them
since the last success or enabling. -/
theorem exhaustion_accounted {as : List (WorkerAction κ)} (hjobs : s.jobs = [])
    (hmeets : Meets (workerStep workers)
      (fun s a => IsEnabled endpointId s ∧ Attributable endpointId s a) s as)
    (h : exec (workerStep workers) s as = some s') :
    (∀ n n', failuresOf s.db.endpoints endpointId = some n →
      failuresOf s'.db.endpoints endpointId = some n' →
      n' = failuresSince workers endpointId s as n) ∧
    (∀ id, exhaustions s'.db endpointId id ≤ exhaustions s.db endpointId id + 1) ∧
    ∀ a v, IsEnabled endpointId s' → Attributable endpointId s' a →
      workerStep workers s' a = some v → Accounts endpointId s' a v := by
  have hinit : Sound endpointId s := by
    refine ⟨?_, fun job hjob => ?_⟩
    · rw [hjobs]
      exact Remembered.nil _ _
    · rw [hjobs] at hjob
      exact absurd hjob List.not_mem_nil
  refine ⟨fun n n' hn hn' => counted_run hinit hmeets h hn hn', fun id => ?_,
    fun a v henabled ha hs => ?_⟩
  · exact runs_once (fun _ _ _ hi hc hs => sound_step hi hc.1 hs)
      (fun _ _ _ hi hc hs => gone_step hi hc.1 hs)
      (fun _ _ _ hi hc hs => exhaustions_step hi hc.1 hc.2 hs) hinit hmeets h
  · have hsound := runs_inv_meets (fun _ _ _ hi hc hs => sound_step hi hc.1 hs) hinit hmeets h
    exact accounts_step hsound henabled ha hs

end Step

/-! ## A lookup that fails -/

instance (endpointId : String) {κ : Type} (s : WorkerState κ) :
    Decidable (IsEnabled endpointId s) :=
  inferInstanceAs (Decidable (_ = true))

/-- The lookup fails on the last attempt: the delivery dies, and nobody hears. -/
theorem lookup_failure_unaccounted :
    ¬ ∀ (as : List (WorkerAction Unit)) (a : WorkerAction Unit) (s v : WorkerState Unit),
      Meets (workerStep fun _ => hooksWorker) (fun s _ => IsEnabled "w1" s) lateState
        (as ++ [a]) →
      exec (workerStep fun _ => hooksWorker) lateState as = some s →
      workerStep (fun _ => hooksWorker) s a = some v → Accounts "w1" s a v := by
  intro hall
  have htest : ∀ (s : WorkerState Unit) (a : WorkerAction Unit),
      decide (IsEnabled "w1" s) = true → IsEnabled "w1" s := fun _ _ => of_decide_eq_true
  have hrun : (exec (workerStep fun _ => hooksWorker) lateState [.claim 0 (fun _ => false) 10,
      .process 0 (.lookupFailed "db" (some ()) slowWorld)]).bind (fun s =>
        (workerStep (fun _ => hooksWorker) s (.settle 0 9 0)).map fun v =>
          (exhaustions s.db "w1" "d1", exhaustions v.db "w1" "d1",
            decide (Dies "w1" s.db.deliveries v.db.deliveries "d1"))) = some (0, 0, true) := by
    decide
  obtain ⟨s, hs, hstep⟩ := Option.bind_eq_some_iff.1 hrun
  obtain ⟨v, hv, hnumbers⟩ := Option.map_eq_some_iff.1 hstep
  obtain ⟨hbefore, hrest⟩ := Prod.mk.inj hnumbers
  obtain ⟨hafter, hdies⟩ := Prod.mk.inj hrest
  have hannounced := (hall _ _ s v (meets_of_passes htest (by decide)) hs hv).announced "d1"
  rw [hbefore, hafter, if_pos (of_decide_eq_true hdies)] at hannounced
  cases hannounced

instance (endpointId : String) {κ : Type} (s : WorkerState κ) :
    ∀ a, Decidable (Attributable endpointId s a)
  | .settle j _ _ =>
      match hjob : s.jobs[j]? with
      | some ⟨_, record, .processed processing _⟩ =>
          decidable_of_iff (record.endpointId = endpointId → processing.isLost = true →
            s.db.deliveries.rows.any (leased (leaseKeyOf record)) = true →
            record.status = .deadLetter ∨ record.attempts < WEBHOOK_MAX_ATTEMPTS)
            ⟨fun h i record' processing' outcome' hjob' => by
              rw [hjob] at hjob'
              cases hjob'
              exact h, fun h => h _ _ _ _ hjob⟩
      | some ⟨_, _, .claimed⟩ => isTrue fun i record' processing' outcome' hjob' => by
          rw [hjob] at hjob'
          cases hjob'
      | some ⟨_, _, .over⟩ => isTrue fun i record' processing' outcome' hjob' => by
          rw [hjob] at hjob'
          cases hjob'
      | none => isTrue fun i record' processing' outcome' hjob' => by
          rw [hjob] at hjob'
          cases hjob'
  | .claim .. | .process .. | .giveBack _ | .abandon _ | .enqueue _ | .createEndpoint ..
  | .updateEndpoint _ | .rotateSecret .. | .deleteEndpoint .. | .wait _ => isTrue trivial

theorem exhaustion_accounted_hooks :
    ∃ s, exec (workerStep fun _ => hooksWorker) lateState
        (lastAttempt (.lookedUp (some ()) slowWorld)) = some s ∧
      exhaustions s.db "w1" "d1" = 1 ∧ failuresOf s.db.endpoints "w1" = some 1 ∧
      (∀ n n', failuresOf lateState.db.endpoints "w1" = some n →
        failuresOf s.db.endpoints "w1" = some n' →
        n' = failuresSince (fun _ => hooksWorker) "w1" lateState
          (lastAttempt (.lookedUp (some ()) slowWorld)) n) ∧
      (∀ id, exhaustions s.db "w1" id ≤ exhaustions lateState.db "w1" id + 1) ∧
      ∀ a v, IsEnabled "w1" s → Attributable "w1" s a →
        workerStep (fun _ => hooksWorker) s a = some v → Accounts "w1" s a v := by
  have hrun : (exec (workerStep fun _ => hooksWorker) lateState
      (lastAttempt (.lookedUp (some ()) slowWorld))).map (fun s =>
        (exhaustions s.db "w1" "d1", failuresOf s.db.endpoints "w1")) = some (1, some 1) := by
    decide
  obtain ⟨s, hs, hnumbers⟩ := Option.map_eq_some_iff.1 hrun
  obtain ⟨hone, hcount⟩ := Prod.mk.inj hnumbers
  have htest : ∀ (s : WorkerState Unit) (a : WorkerAction Unit),
      decide (IsEnabled "w1" s ∧ Attributable "w1" s a) = true →
      IsEnabled "w1" s ∧ Attributable "w1" s a := fun _ _ => of_decide_eq_true
  exact ⟨s, hs, hone, hcount,
    exhaustion_accounted rfl (meets_of_passes htest (by decide)) hs⟩

end CleanStack.Webhooks
