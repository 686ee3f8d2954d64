import CleanStack.Email.DeliveryWorker
import CleanStack.Lib.Snapshots

/-!
# Giving up on an e-mail

Whether a failure is the first terminal one is decided from the status a worker
saw when it claimed the row. Every claimed record of a drain is in one of its
calls or chunks and is written once, so the status a held record remembers is
the status of the row its write reaches: the event goes out in the transaction
in which the row leaves `pending`, and no row comes back to it.
-/

namespace CleanStack.Email

open CleanStack.Lib CleanStack.Lib.Snapshots CleanStack.Drizzle CleanStack.Kit CleanStack.Outbox

/-! ## The records a drain holds -/

def Call.rows : Call → List EmailMessageRecord
  | .release rows _ => rows
  | .settleFailures rows _ => rows
  | .assignBatch chunk _ _ => chunk
  | .batchSend chunk _ _ => chunk
  | .markSent rows _ => rows

def Drain.rows (d : Drain) : List EmailMessageRecord :=
  d.calls.flatMap Call.rows ++ d.chunks.flatten

def heldOf (r : EmailMessageRecord) : Held String MessageStatus := ⟨r.id, r.attempts, r.status⟩

section Rows

variable {m : Mailer}

theorem flatten_slices (group : List EmailMessageRecord) (n : Nat) :
    ((List.range n).map fun i => (group.drop (i * EMAIL_BATCH_CHUNK_SIZE)).take
      EMAIL_BATCH_CHUNK_SIZE).flatten = group.take (n * EMAIL_BATCH_CHUNK_SIZE) := by
  induction n with
  | zero => simp
  | succ n ih =>
      rw [List.range_succ, List.map_append, List.flatten_append, ih, List.map_singleton,
        List.flatten_singleton, Nat.succ_mul, List.take_add]

theorem flatten_chunksOf (group : List EmailMessageRecord) :
    (chunksOf group).flatten = group := by
  rw [chunksOf, flatten_slices]
  refine List.take_of_length_le ?_
  simp only [EMAIL_BATCH_CHUNK_SIZE]
  omega

/-- The plan for a claim covers its rows. -/
theorem rows_drainOf (options : EmailDeliveryOptions) (rows : List EmailMessageRecord) :
    (drainOf options rows).rows.Perm rows := by
  have hcalls : (drainOf options rows).calls.flatMap Call.rows =
      ((groupRows rows).filter fun group => !isWholeBatch group).flatten := by
    rw [drainOf]
    dsimp only
    split
    · next hnone => rw [hnone]; rfl
    · simp [Call.rows]
  have hchunks : (drainOf options rows).chunks.flatten =
      ((groupRows rows).filter isWholeBatch).flatten := by
    rw [drainOf]
    dsimp only
    rw [List.flatMap_def, List.flatten_flatten, List.map_map]
    have hid : List.flatten ∘ chunksOf = id := funext flatten_chunksOf
    rw [hid, List.map_id]
  rw [Drain.rows, hcalls, hchunks]
  refine List.perm_append_comm.trans ?_
  rw [← List.flatten_append]
  refine (List.filter_append_perm isWholeBatch (groupRows rows)).flatten.trans ?_
  exact flatten_groupsOf groupKey rows

def renders (m : Mailer) (r : EmailMessageRecord) : Bool :=
  (toEntry m r.toEmailRow).toOption.isSome

theorem rendered_fst (claimed : List EmailMessageRecord) :
    (rendered m claimed).map Prod.fst = claimed.filter (renders m) := by
  induction claimed with
  | nil => rfl
  | cons r rest ih =>
      rw [rendered, List.filterMap_cons, List.filter_cons, renders]
      cases toEntry m r.toEmailRow with
      | error message => exact ih
      | ok entry => exact congrArg (r :: ·) ih

theorem rows_renderFailures (claimed : List EmailMessageRecord) :
    (renderFailures m claimed).flatMap Call.rows = claimed.filter fun r => !renders m r := by
  induction claimed with
  | nil => rfl
  | cons r rest ih =>
      rw [renderFailures, List.filterMap_cons, List.filter_cons, renders]
      cases toEntry m r.toEmailRow with
      | error message => exact congrArg (r :: ·) ih
      | ok entry => exact ih

/-- The rows of a chunk are settled as failed or sent on, each of them once. -/
theorem rows_sendChunk (claimed : List EmailMessageRecord) :
    ((sendChunk m claimed).flatMap Call.rows).Perm claimed := by
  have hsend : (sendChunk m claimed).flatMap Call.rows =
      (claimed.filter fun r => !renders m r) ++ claimed.filter (renders m) := by
    rw [sendChunk, List.flatMap_append, rows_renderFailures, ← rendered_fst]
    congr 1
    split
    · next hnone => rw [hnone]; rfl
    · simp [Call.rows]
  rw [hsend]
  exact List.perm_append_comm.trans (List.filter_append_perm (renders m) claimed)

theorem rows_failedCalls (chunk : List EmailMessageRecord) (errors : List (Nat × String)) :
    (failedCalls chunk errors).flatMap Call.rows =
      (chunk.zipIdx.filter fun p => !(failureAt errors p.2).isNone).map Prod.fst := by
  rw [failedCalls]
  induction chunk.zipIdx with
  | nil => rfl
  | cons p rest ih =>
      obtain ⟨r, index⟩ := p
      rw [List.filterMap_cons, List.filter_cons]
      dsimp only
      cases failureAt errors index with
      | none => exact ih
      | some message => exact congrArg (r :: ·) ih

theorem rows_settleAnswer (options : EmailDeliveryOptions) (random : Draw)
    (chunk : List EmailMessageRecord) (result : BatchResult) :
    ((settleAnswer options random chunk result).flatMap Call.rows).Perm chunk := by
  cases result with
  | error error =>
      have hrows : (settleRejected options random chunk error).rows = chunk := by
        rw [settleRejected]
        cases error.kind <;> rfl
      rw [settleAnswer, List.flatMap_singleton, hrows]
  | answered data errors =>
      have hanswer : (settleAnswer options random chunk (.answered data errors)).flatMap
          Call.rows =
          ((chunk.zipIdx.filter fun p => !(failureAt errors p.2).isNone) ++
            chunk.zipIdx.filter fun p => (failureAt errors p.2).isNone).map Prod.fst := by
        rw [settleAnswer, List.flatMap_append, rows_failedCalls, List.map_append]
        congr 1
        show List.flatMap Call.rows (if (sentRows chunk errors).map Prod.fst = [] then [] else _) =
          (sentRows chunk errors).map Prod.fst
        split
        · next hnone => rw [hnone]; rfl
        · simp [Call.rows]
      rw [hanswer]
      have hperm := List.perm_append_comm.trans (List.filter_append_perm
        (fun p : EmailMessageRecord × Nat => (failureAt errors p.2).isNone) chunk.zipIdx)
      exact (hperm.map Prod.fst).trans (by rw [List.zipIdx_map_fst])

end Rows

def MailState.rows (s : MailState) : List EmailMessageRecord := s.drains.flatMap Drain.rows

/-- A chunk with a dead row is not put off as pending. -/
def Reasoned : Call → Prop
  | .settleFailures rows (.pending ..) => ∀ r ∈ rows, r.status ≠ .dead
  | _ => True

structure Faithful (s : MailState) : Prop where
  remembered : Remembered EmailRow.status s.table (s.rows.map heldOf)
  distinct : ∀ d ∈ s.drains, (d.rows.map fun r => r.id).Nodup
  reasoned : ∀ d ∈ s.drains, ∀ c ∈ d.calls, Reasoned c

section Step

variable {m : Mailer} {s s' : MailState} {t : EmailTable}

theorem faithful_init (h : s.drains = []) : Faithful s := by
  have hrows : s.rows = [] := by rw [MailState.rows, h]; rfl
  refine ⟨?_, fun d hd => ?_, fun d hd => ?_⟩
  · rw [hrows]
    exact Remembered.nil _ _
  · rw [h] at hd
    exact absurd hd List.not_mem_nil
  · rw [h] at hd
    exact absurd hd List.not_mem_nil

/-- The records of one drain and those of the others. -/
theorem rows_set {i : Nat} {d : Drain} (h : s.drains[i]? = some d) :
    ∃ others, s.rows.Perm (d.rows ++ others) ∧
      ∀ d', ((s.drains.set i d').flatMap Drain.rows).Perm (d'.rows ++ others) := by
  obtain ⟨hi, rfl⟩ := List.getElem?_eq_some_iff.1 h
  refine ⟨(s.drains.take i ++ s.drains.drop (i + 1)).flatMap Drain.rows, ?_, fun d' => ?_⟩
  · have hsplit : s.drains = s.drains.take i ++ s.drains[i] :: s.drains.drop (i + 1) := by
      rw [List.getElem_cons_drop, List.take_append_drop]
    rw [MailState.rows]
    conv_lhs => rw [hsplit]
    rw [List.flatMap_append, List.flatMap_cons, List.flatMap_append, ← List.append_assoc,
      ← List.append_assoc]
    exact List.perm_append_comm.append_right _
  · rw [List.set_eq_take_append_cons_drop, if_pos hi, List.flatMap_append, List.flatMap_cons,
      List.flatMap_append, ← List.append_assoc, ← List.append_assoc]
    exact List.perm_append_comm.append_right _

theorem reachedBy_leases {rows : List EmailMessageRecord} :
    ReachedBy (rows.map heldOf) t (leasedAll (leases rows)) := by
  intro r _ h
  obtain ⟨-, c, hc, hid, hattempts⟩ := exists_of_leasedAll h
  exact ⟨heldOf c, List.mem_map_of_mem hc, hid, hattempts⟩

theorem settleFailures_fst (m : Mailer) (t : EmailTable) (now : Time)
    (rows : List EmailMessageRecord) (failure : EmailFailure) :
    (settleFailures m t now rows failure).1 = (markFailed t now (leases rows) failure).1 := by
  cases failure <;> rfl

theorem subperm_nextCalls {outcome : Outcome} {c : Call} :
    ((nextCalls t outcome c).flatMap Call.rows).Subperm c.rows := by
  cases c with
  | assignBatch chunk entries key =>
      rw [nextCalls]
      split
      · rw [List.flatMap_singleton]
        exact List.Subperm.refl chunk
      · rw [List.flatMap_singleton]
        exact List.Subperm.refl chunk
  | _ => exact List.nil_subperm

/-- A statement ends the claims of its records, `assignBatch` apart, which
leaves them and the rows as they are. -/
theorem remembered_tableAfter (outcome : Outcome) {c : Call} {rest : List EmailMessageRecord}
    (h : Remembered EmailRow.status s.table ((c.rows ++ rest).map heldOf)) :
    Remembered EmailRow.status (tableAfter m s outcome c)
      (((nextCalls s.table outcome c).flatMap Call.rows ++ rest).map heldOf) := by
  have hnext : (((nextCalls s.table outcome c).flatMap Call.rows ++ rest).map heldOf).Subperm
      ((c.rows ++ rest).map heldOf) :=
    subperm_map heldOf ((List.subperm_append_right rest).2 subperm_nextCalls)
  unfold tableAfter
  split
  · exact h.subperm hnext
  · rw [List.map_append] at h
    cases c with
    | release rows delaySeconds =>
        exact h.release (f := postponedSet s.clock delaySeconds) (fun _ => rfl) (fun _ => rfl)
          (fun _ => rfl) reachedBy_leases
    | settleFailures rows failure =>
        rw [runStatement, settleFailures_fst]
        exact h.settle (failureChanges_id s.clock failure) (failureChanges_attempts s.clock failure)
          reachedBy_leases
    | assignBatch chunk entries key =>
        have htouched := h.touch (p := leasedAll (leases chunk))
          (f := fun r => { r with batchKey := some key }) (fun _ => rfl) (fun _ => rfl)
          fun _ _ _ => rfl
        rw [← List.map_append] at htouched
        exact htouched.subperm hnext
    | batchSend chunk entries key =>
        rw [← List.map_append] at h
        exact h.subperm hnext
    | markSent rows providerIds =>
        exact h.settle (f := sentSet s.clock providerIds) (fun _ => rfl) (fun _ => rfl)
          reachedBy_leases

/-- The `i`-th drain goes on with some of the records it had. -/
theorem faithful_setDrain {i : Nat} {d d' : Drain} (h : Faithful s)
    (hd : s.drains[i]? = some d) (hsub : d'.rows.Subperm d.rows)
    (hreasoned : ∀ c ∈ d'.calls, Reasoned c) :
    (∀ x ∈ s.drains.set i d', (x.rows.map fun r => r.id).Nodup) ∧
      ∀ x ∈ s.drains.set i d', ∀ c ∈ x.calls, Reasoned c := by
  have hmem := List.mem_of_getElem? hd
  constructor
  · intro x hx
    rcases List.mem_or_eq_of_mem_set hx with hold | rfl
    · exact h.distinct x hold
    · obtain ⟨l, hperm, hl⟩ := subperm_map (fun r : EmailMessageRecord => r.id) hsub
      exact hperm.nodup_iff.1 ((h.distinct d hmem).sublist hl)
  · intro x hx
    rcases List.mem_or_eq_of_mem_set hx with hold | rfl
    · exact h.reasoned x hold
    · exact hreasoned

theorem reasoned_nextChunk {d d' : Drain} {stopping : Bool}
    (h : nextChunk m d stopping = some d') :
    d'.rows.Subperm d.rows ∧ ∀ c ∈ d'.calls, Reasoned c := by
  unfold nextChunk at h
  split at h
  · next chunk rest hcalls hchunks =>
      split at h <;> cases h
      · constructor
        · rw [Drain.rows, Drain.rows, hcalls, hchunks]
          simp [Call.rows, List.Subperm.refl]
        · intro c hc
          rw [List.mem_singleton.1 hc]
          trivial
      · constructor
        · rw [Drain.rows, Drain.rows, hcalls, hchunks, List.flatMap_nil, List.nil_append,
            List.flatten_cons]
          exact ((rows_sendChunk chunk).append_right _).subperm
        · intro c hc
          rcases List.mem_append.1 hc with hfail | hassign
          · obtain ⟨r, -, hr⟩ := List.mem_filterMap.1 hfail
            split at hr <;> cases hr
            trivial
          · split at hassign
            · exact absurd hassign List.not_mem_nil
            · rw [List.mem_singleton.1 hassign]
              trivial
  · cases h

/-- Only a chunk without a dead row is put off as pending. -/
theorem failureOfChunk_pending {options : EmailDeliveryOptions} {random : Draw}
    {chunk : List EmailMessageRecord} {lastError error : String} {retryAfterSeconds : Nat}
    (h : failureOfChunk options random chunk lastError = .pending error retryAfterSeconds) :
    ∀ r ∈ chunk, r.status ≠ .dead := by
  intro r hr hdead
  have hwas : (chunk.any fun r => r.status = .dead) = true :=
    List.any_eq_true.2 ⟨r, hr, decide_eq_true hdead⟩
  rw [failureOfChunk, hwas] at h
  simp [failureSchedule] at h

theorem reasoned_settleAnswer {options : EmailDeliveryOptions} {random : Draw}
    {chunk : List EmailMessageRecord} {result : BatchResult} :
    ∀ c ∈ settleAnswer options random chunk result, Reasoned c := by
  intro c hc
  cases result with
  | error error =>
      rw [List.mem_singleton.1 hc, settleRejected]
      split
      · trivial
      · cases hfailure : failureOfChunk options random chunk
            ("HTTP " ++ toString error.statusCode ++ ": " ++ error.message) with
        | pending lastError retryAfterSeconds => exact failureOfChunk_pending hfailure
        | failed lastError => trivial
        | dead lastError retryAfterSeconds => trivial
      · trivial
      · trivial
  | answered data errors =>
      rcases List.mem_append.1 hc with hfail | hsent
      · obtain ⟨r, -, hr⟩ := List.mem_filterMap.1 hfail
        obtain ⟨message, -, rfl⟩ := Option.map_eq_some_iff.1 hr
        trivial
      · split at hsent
        · exact absurd hsent List.not_mem_nil
        · rw [List.mem_singleton.1 hsent]
          trivial

theorem reasoned_nextCalls {outcome : Outcome} {c : Call} :
    ∀ c' ∈ nextCalls t outcome c, Reasoned c' := by
  intro c' hc'
  cases c with
  | assignBatch chunk entries key =>
      rw [nextCalls] at hc'
      split at hc'
      · rw [List.mem_singleton.1 hc']
        trivial
      · rw [List.mem_singleton.1 hc']
        trivial
  | _ => exact absurd hc' List.not_mem_nil

/-- The records of a drain, its first call apart. -/
theorem rows_of_calls {d : Drain} {c : Call} {rest : List Call} (h : d.calls = c :: rest) :
    d.rows = c.rows ++ (rest.flatMap Call.rows ++ d.chunks.flatten) := by
  rw [Drain.rows, h, List.flatMap_cons, List.append_assoc]

theorem faithful_runCall {i : Nat} {d : Drain} {outcome : Outcome} (h : Faithful s)
    (hd : s.drains[i]? = some d) (hs : runCall m s i d outcome = some s') : Faithful s' := by
  have hmem := List.mem_of_getElem? hd
  obtain ⟨c, rest, hcalls, rfl⟩ := runCall_eq_some hs
  obtain ⟨others, hbefore, hafter⟩ := rows_set hd
  have hrows := rows_of_calls hcalls
  have hrows' : Drain.rows { d with calls := nextCalls s.table outcome c ++ rest } =
      (nextCalls s.table outcome c).flatMap Call.rows ++
        (rest.flatMap Call.rows ++ d.chunks.flatten) := by
    rw [Drain.rows, List.flatMap_append, List.append_assoc]
  have hsub : (Drain.rows { d with calls := nextCalls s.table outcome c ++ rest }).Subperm
      d.rows := by
    rw [hrows, hrows']
    exact (List.subperm_append_right _).2 subperm_nextCalls
  obtain ⟨hdistinct, hreasoned⟩ := faithful_setDrain h hd hsub fun c' hc' => by
    rcases List.mem_append.1 hc' with hnext | hrest
    · exact reasoned_nextCalls c' hnext
    · exact h.reasoned d hmem c' (hcalls ▸ List.mem_cons_of_mem _ hrest)
  refine ⟨?_, hdistinct, hreasoned⟩
  have hremembered := h.remembered.subperm (hbefore.symm.map heldOf).subperm
  rw [hrows, List.append_assoc] at hremembered
  have hnext := remembered_tableAfter (m := m) outcome hremembered
  rw [← List.append_assoc, ← hrows'] at hnext
  exact hnext.subperm ((hafter _).map heldOf).subperm

/-- A step of a drain that writes no row. -/
theorem remembered_setDrain {i : Nat} {d d' : Drain} (h : Faithful s)
    (hd : s.drains[i]? = some d) (hsub : d'.rows.Subperm d.rows) :
    Remembered EmailRow.status s.table ((s.drains.set i d').flatMap Drain.rows |>.map heldOf) := by
  obtain ⟨others, hbefore, hafter⟩ := rows_set hd
  refine h.remembered.subperm (subperm_map heldOf ?_)
  exact (hafter d').subperm.trans
    (((List.subperm_append_right others).2 hsub).trans hbefore.symm.subperm)

theorem faithful_claim {locked : String → Bool} {limit : Nat} {options : EmailDeliveryOptions}
    (h : Faithful s) (hs : mailStep m s (.claim locked limit options) = some s') :
    Faithful s' := by
  cases hs
  have hplan := rows_drainOf options (claim s.table s.clock locked
    ⟨limit, options.leaseSeconds, options.deadReplayWindowHours⟩).2
  refine ⟨?_, fun d hd => ?_, fun d hd => ?_⟩
  · have hheld := h.remembered.claim (claimPicked s.table s.clock locked
        ⟨limit, options.leaseSeconds, options.deadReplayWindowHours⟩)
      (key_claimedSet s.clock options.leaseSeconds)
      (counter_claimedSet s.clock options.leaseSeconds) fun _ => rfl
    refine hheld.subperm ?_
    rw [MailState.rows, List.flatMap_append, List.map_append, List.flatMap_singleton]
    refine (List.subperm_append_left _).2 (List.Perm.subperm ?_)
    have hrecords := congrArg (List.map (snapshot EmailRow.status)) (@claim_rows s.table
      s.clock locked ⟨limit, options.leaseSeconds, options.deadReplayWindowHours⟩)
    rw [List.map_map] at hrecords
    exact (hplan.map heldOf).trans ((List.Perm.of_eq hrecords).trans ((orderBy_perm _ _).map _))
  · rcases List.mem_append.1 hd with hold | hnew
    · exact h.distinct d hold
    · rw [List.mem_singleton.1 hnew]
      exact (hplan.map _).nodup_iff.2 nodup_claim
  · rcases List.mem_append.1 hd with hold | hnew
    · exact h.reasoned d hold
    · rw [List.mem_singleton.1 hnew]
      intro c hc
      simp only [drainOf] at hc
      split at hc
      · exact absurd hc List.not_mem_nil
      · rw [List.mem_singleton.1 hc]
        trivial

theorem faithful_step {e : MailEvent} (h : Faithful s) (hs : mailStep m s e = some s') :
    Faithful s' := by
  cases e with
  | enqueue r =>
      simp only [mailStep] at hs
      split at hs
      · obtain ⟨table, hinsert, rfl⟩ := Option.map_eq_some_iff.1 hs
        exact ⟨h.remembered.insert hinsert, h.distinct, h.reasoned⟩
      · cases hs
  | wait n =>
      cases hs
      exact ⟨h.remembered, h.distinct, h.reasoned⟩
  | claim locked limit options => exact faithful_claim h hs
  | nextChunk i stopping =>
      obtain ⟨d, hd, hs⟩ := Option.bind_eq_some_iff.1 hs
      obtain ⟨d', hd', rfl⟩ := Option.map_eq_some_iff.1 hs
      obtain ⟨hsub, hreasoned⟩ := reasoned_nextChunk hd'
      obtain ⟨hdistinct, hreasoned⟩ := faithful_setDrain h hd hsub hreasoned
      exact ⟨remembered_setDrain h hd hsub, hdistinct, hreasoned⟩
  | call i outcome =>
      obtain ⟨d, hd, hs⟩ := Option.bind_eq_some_iff.1 hs
      exact faithful_runCall h hd hs
  | send i result accepts random =>
      obtain ⟨d, hd, hs⟩ := Option.bind_eq_some_iff.1 hs
      obtain ⟨chunk, entries, key, rest, hcalls, rfl⟩ := runSend_eq_some hs
      have hsub : (Drain.rows { d with
          calls := settleAnswer d.options random chunk result ++ rest }).Subperm d.rows := by
        rw [rows_of_calls hcalls, Drain.rows, List.flatMap_append, List.append_assoc]
        exact (List.subperm_append_right _).2 (rows_settleAnswer _ _ _ _).subperm
      obtain ⟨hdistinct, hreasoned⟩ := faithful_setDrain h hd hsub fun c hc => by
        rcases List.mem_append.1 hc with hanswer | hrest
        · exact reasoned_settleAnswer c hanswer
        · exact h.reasoned d (List.mem_of_getElem? hd) c
            (hcalls ▸ List.mem_cons_of_mem _ hrest)
      exact ⟨remembered_setDrain h hd hsub, hdistinct, hreasoned⟩

end Step

/-! ## What a step announces -/

def statusOf (t : EmailTable) (id : String) : Option MessageStatus :=
  (t.find? id).map EmailRow.status

/-- The row leaves `pending` without having been sent. -/
def GivesUp (t t' : EmailTable) (id : String) : Prop :=
  statusOf t id = some .pending ∧
    (statusOf t' id = some .dead ∨ statusOf t' id = some .failed)

instance (t t' : EmailTable) (id : String) : Decidable (GivesUp t t' id) :=
  inferInstanceAs (Decidable (_ ∧ _))

/-- The events announce the rows that give up from one table to the next, each
of them once, and no row that is not pending turns pending. -/
structure Announces (t t' : EmailTable) (events : List EmailDeliveryExhausted) : Prop where
  announced : ∀ id, (events.map EmailDeliveryExhausted.messageId).count id =
    if GivesUp t t' id then 1 else 0
  final : ∀ id, statusOf t id ≠ none → statusOf t id ≠ some .pending →
    statusOf t' id ≠ none ∧ statusOf t' id ≠ some .pending

section Announce

variable {m : Mailer} {s s' : MailState} {t t' : EmailTable}

theorem statusOf_update {p : EmailRow → Bool} {f : EmailRow → EmailRow}
    (hf : ∀ r, Keyed.key (f r) = Keyed.key r) (id : String) :
    statusOf (t.update p f hf) id =
      (t.find? id).map fun r => if p r then (f r).status else r.status := by
  rw [statusOf, Table.find?_update, Option.map_map]
  congr 1
  funext r
  simp only [Function.comp_apply]
  split
  · rfl
  · rfl

theorem statusOf_of_same {p : EmailRow → Bool} {f : EmailRow → EmailRow}
    (hf : ∀ r, Keyed.key (f r) = Keyed.key r) (hstatus : ∀ r, (f r).status = r.status)
    (id : String) : statusOf (t.update p f hf) id = statusOf t id := by
  rw [statusOf_update, statusOf]
  congr 1
  funext r
  rw [hstatus, ite_self]

/-- No row gives up, and nothing is announced. -/
theorem announces_none (hstatus : ∀ id, statusOf t id ≠ none →
    statusOf t' id = statusOf t id ∨ statusOf t' id = some .sent ∨
      (statusOf t id = some .pending ∧ statusOf t' id = some .pending)) :
    Announces t t' [] := by
  refine ⟨fun id => ?_, fun id hsome hne => ?_⟩
  · rw [if_neg]
    · rfl
    · rintro ⟨hpending, hgone⟩
      rcases hstatus id (by rw [hpending]; nofun) with hsame | hsent | ⟨-, hstill⟩
      · rw [hsame, hpending] at hgone
        rcases hgone with hgone | hgone <;> cases hgone
      · rw [hsent] at hgone
        rcases hgone with hgone | hgone <;> cases hgone
      · rw [hstill] at hgone
        rcases hgone with hgone | hgone <;> cases hgone
  · rcases hstatus id hsome with hsame | hsent | ⟨hpending, -⟩
    · rw [hsame]
      exact ⟨hsome, hne⟩
    · rw [hsent]
      exact ⟨nofun, nofun⟩
    · exact absurd hpending hne

theorem announces_same (hstatus : ∀ id, statusOf t id ≠ none → statusOf t' id = statusOf t id) :
    Announces t t' [] :=
  announces_none fun id hsome => .inl (hstatus id hsome)

section Failures

variable {rows rest : List EmailMessageRecord} {now : Time} {failure : EmailFailure}

/-- The record a row is leased by remembers the status of the row. -/
theorem status_of_leased {r : EmailRow}
    (hrem : Remembered EmailRow.status t ((rows ++ rest).map heldOf)) (hr : r ∈ t.rows)
    (h : leasedAll (leases rows) r = true) :
    unsettled r = true ∧ ∃ c ∈ rows, c.id = r.id ∧ c.status = r.status := by
  obtain ⟨hopen, c, hc, hid, hattempts⟩ := exists_of_leasedAll h
  exact ⟨hopen, c, hc, hid, (hrem.current (heldOf c)
    (List.mem_map_of_mem (List.mem_append_left _ hc)) r hr hid.symm hattempts).symm⟩

theorem written_any {row : EmailMessageRecord} :
    ((markFailed t now (leases rows) failure).2.any fun lease => lease.id = row.id) = true ↔
      ∃ r ∈ t.rows, leasedAll (leases rows) r = true ∧ r.id = row.id := by
  rw [List.any_eq_true]
  constructor
  · rintro ⟨lease, hlease, hid⟩
    obtain ⟨r', hr', rfl⟩ := List.mem_map.1 hlease
    obtain ⟨r, hr, hheld, rfl⟩ := Table.mem_returning.1 hr'
    exact ⟨r, hr, hheld, (failureChanges_id now failure r).symm.trans (of_decide_eq_true hid)⟩
  · rintro ⟨r, hr, hheld, hid⟩
    exact ⟨_, List.mem_map_of_mem (Table.mem_returning.2 ⟨r, hr, hheld, rfl⟩),
      decide_eq_true ((failureChanges_id now failure r).trans hid)⟩

theorem pending_of_unsettled {r : EmailRow} (h : unsettled r = true) (hne : r.status ≠ .dead) :
    r.status = .pending := by
  simp only [unsettled, Bool.or_eq_true, decide_eq_true_eq] at h
  exact h.resolve_right hne

theorem statusOf_markFailed (id : String) :
    statusOf (markFailed t now (leases rows) failure).1 id = (t.find? id).map fun r =>
      if leasedAll (leases rows) r then (failureChanges now failure r).status else r.status :=
  statusOf_update (failureChanges_id now failure) id

/-- The records of a settlement that were written and not dead before. -/
def exhausted (t : EmailTable) (now : Time) (rows : List EmailMessageRecord)
    (failure : EmailFailure) : List EmailMessageRecord :=
  rows.filter fun row => ((markFailed t now (leases rows) failure).2.any
    fun lease => lease.id = row.id) && row.status ≠ .dead

/-- A terminal failure is announced for the rows it makes give up. -/
theorem mem_announced (hrem : Remembered EmailRow.status t ((rows ++ rest).map heldOf))
    (hnodup : (rows.map fun r => r.id).Nodup)
    (hterminal : ∀ r, (failureChanges now failure r).status = .dead ∨
      (failureChanges now failure r).status = .failed) (id : String) :
    id ∈ (exhausted t now rows failure).map (fun r => r.id) ↔
      GivesUp t (markFailed t now (leases rows) failure).1 id := by
  rw [GivesUp, statusOf_markFailed, statusOf, List.mem_map]
  constructor
  · rintro ⟨row, hrow, rfl⟩
    obtain ⟨hrow, hwhen⟩ := List.mem_filter.1 hrow
    obtain ⟨hwritten, halive⟩ := Bool.and_eq_true_iff.1 hwhen
    obtain ⟨r, hr, hheld, hid⟩ := written_any.1 hwritten
    obtain ⟨hopen, c, hc, hcid, hstatus⟩ := status_of_leased hrem hr hheld
    obtain rfl : c = row := List.inj_on_of_nodup_map hnodup hc hrow (hcid.trans hid)
    have hpending := pending_of_unsettled hopen (hstatus ▸ of_decide_eq_true halive)
    rw [Table.find?_eq_some.2 ⟨hr, hid⟩, Option.map_some, Option.map_some, if_pos hheld, hpending]
    refine ⟨rfl, ?_⟩
    rcases hterminal r with h | h <;> rw [h]
    · exact .inl rfl
    · exact .inr rfl
  · rintro ⟨hpending, hgone⟩
    obtain ⟨r, hfind, hrpending⟩ := Option.map_eq_some_iff.1 hpending
    obtain ⟨hr, hid⟩ := Table.find?_eq_some.1 hfind
    rw [hfind, Option.map_some] at hgone
    have hheld : leasedAll (leases rows) r = true := by
      by_contra hnot
      rw [if_neg hnot, hrpending] at hgone
      rcases hgone with hgone | hgone <;> cases hgone
    obtain ⟨-, c, hc, hcid, hstatus⟩ := status_of_leased hrem hr hheld
    refine ⟨c, List.mem_filter.2 ⟨hc, ?_⟩, hcid.trans hid⟩
    rw [Bool.and_eq_true]
    exact ⟨written_any.2 ⟨r, hr, hheld, hcid.symm⟩,
      decide_eq_true (by rw [hstatus, hrpending]; nofun)⟩

theorem announces_terminal
    (hrem : Remembered EmailRow.status t ((rows ++ rest).map heldOf))
    (hnodup : (rows.map fun r => r.id).Nodup)
    (hterminal : ∀ r, (failureChanges now failure r).status = .dead ∨
      (failureChanges now failure r).status = .failed) :
    Announces t (markFailed t now (leases rows) failure).1 ((exhausted t now rows failure).map
      fun row => announceExhausted m row failure.lastError) := by
  refine ⟨fun id => ?_, fun id hsome hne => ?_⟩
  · have hids : ((exhausted t now rows failure).map fun row =>
        announceExhausted m row failure.lastError).map EmailDeliveryExhausted.messageId =
        (exhausted t now rows failure).map fun r => r.id := by
      rw [List.map_map]
      rfl
    have hdistinct : ((exhausted t now rows failure).map fun r => r.id).Nodup :=
      hnodup.sublist (List.filter_sublist.map _)
    rw [hids, hdistinct.count]
    simp only [mem_announced hrem hnodup hterminal id]
  · rw [statusOf_markFailed]
    rw [statusOf] at hsome hne
    cases hfind : t.find? id with
    | none =>
        rw [hfind] at hsome
        exact absurd rfl hsome
    | some r =>
        rw [hfind, Option.map_some] at hne
        rw [Option.map_some]
        refine ⟨nofun, fun h => ?_⟩
        split at h
        · rcases hterminal r with hr | hr
          · rw [hr] at h
            cases h
          · rw [hr] at h
            cases h
        · exact hne h

theorem announces_settleFailures
    (hrem : Remembered EmailRow.status t ((rows ++ rest).map heldOf))
    (hnodup : (rows.map fun r => r.id).Nodup)
    (hreasoned : Reasoned (.settleFailures rows failure)) :
    Announces t (settleFailures m t now rows failure).1
      (settleFailures m t now rows failure).2 := by
  cases failure with
  | failed lastError => exact announces_terminal hrem hnodup fun _ => .inr rfl
  | dead lastError retryAfterSeconds => exact announces_terminal hrem hnodup fun _ => .inl rfl
  | pending lastError retryAfterSeconds =>
      rw [settleFailures_fst]
      refine announces_none fun id hsome => ?_
      rw [statusOf_markFailed, statusOf]
      cases hfind : t.find? id with
      | none => exact .inl rfl
      | some r =>
          rw [Option.map_some, Option.map_some]
          split
          · next hheld =>
              obtain ⟨hopen, c, hc, -, hstatus⟩ :=
                status_of_leased hrem (Table.find?_eq_some.1 hfind).1 hheld
              have hpending := pending_of_unsettled hopen (hstatus ▸ hreasoned c hc)
              exact .inr (.inr ⟨by rw [hpending], rfl⟩)
          · exact .inl rfl

end Failures

theorem announces_runStatement {c : Call} {rest : List EmailMessageRecord} {now : Time}
    (hrem : Remembered EmailRow.status t ((c.rows ++ rest).map heldOf))
    (hnodup : (c.rows.map fun r => r.id).Nodup) (hreasoned : Reasoned c) :
    Announces t (runStatement m t now c).1 (runStatement m t now c).2 := by
  cases c with
  | release rows delaySeconds =>
      exact announces_same fun id _ => statusOf_of_same (f := postponedSet now delaySeconds)
        (fun _ => rfl) (fun _ => rfl) id
  | settleFailures rows failure => exact announces_settleFailures hrem hnodup hreasoned
  | assignBatch chunk entries key =>
      exact announces_same fun id _ => statusOf_of_same
        (f := fun r => { r with batchKey := some key }) (fun _ => rfl) (fun _ => rfl) id
  | batchSend chunk entries key => exact announces_same fun _ _ => rfl
  | markSent rows providerIds =>
      refine announces_none fun id _ => ?_
      have hsent : statusOf (runStatement m t now (.markSent rows providerIds)).1 id =
          (t.find? id).map fun r =>
            if leasedAll (leases rows) r then .sent else r.status :=
        statusOf_update (f := sentSet now providerIds) (fun _ => rfl) id
      rw [hsent, statusOf]
      cases t.find? id with
      | none => exact .inl rfl
      | some r =>
          rw [Option.map_some, Option.map_some]
          split
          · exact .inr (.inl rfl)
          · exact .inl rfl

theorem announces_runCall {i : Nat} {d : Drain} {outcome : Outcome} (h : Faithful s)
    (hd : s.drains[i]? = some d) (hs : runCall m s i d outcome = some s') :
    ∃ events, s'.announced = s.announced ++ events ∧ Announces s.table s'.table events := by
  have hmem := List.mem_of_getElem? hd
  obtain ⟨c, rest, hcalls, rfl⟩ := runCall_eq_some hs
  obtain ⟨others, hbefore, -⟩ := rows_set hd
  have hrem := h.remembered.subperm (hbefore.symm.map heldOf).subperm
  have hnodup := h.distinct d hmem
  rw [rows_of_calls hcalls] at hrem hnodup
  rw [List.append_assoc] at hrem
  refine ⟨eventsOf m s outcome c, rfl, ?_⟩
  show Announces s.table (tableAfter m s outcome c) (eventsOf m s outcome c)
  by_cases hrefused : outcome = .refused
  · rw [tableAfter, eventsOf, if_pos hrefused, if_pos hrefused]
    exact announces_same fun _ _ => rfl
  · rw [tableAfter, eventsOf, if_neg hrefused, if_neg hrefused]
    exact announces_runStatement hrem (hnodup.sublist ((List.sublist_append_left _ _).map _))
      (h.reasoned d hmem c (hcalls ▸ List.mem_cons_self))

theorem announces_step {e : MailEvent} (h : Faithful s) (hs : mailStep m s e = some s') :
    ∃ events, s'.announced = s.announced ++ events ∧ Announces s.table s'.table events := by
  cases e with
  | enqueue r =>
      simp only [mailStep] at hs
      split at hs
      · obtain ⟨table, hinsert, rfl⟩ := Option.map_eq_some_iff.1 hs
        refine ⟨[], (List.append_nil _).symm, announces_same fun id hsome => ?_⟩
        show statusOf table id = _
        rw [statusOf] at hsome ⊢
        rw [Table.find?_insert hinsert]
        split
        · next hkey =>
            have hfresh : s.table.find? id = none := Table.find?_eq_none.2 fun r' hr' =>
              hkey ▸ Table.insert_fresh hinsert r' hr'
            rw [hfresh] at hsome
            exact absurd rfl hsome
        · rfl
      · cases hs
  | wait n =>
      cases hs
      exact ⟨[], (List.append_nil _).symm, announces_same fun _ _ => rfl⟩
  | claim locked limit options =>
      cases hs
      exact ⟨[], (List.append_nil _).symm, announces_same fun id _ => statusOf_of_same
        (f := claimedSet s.clock options.leaseSeconds)
        (key_claimedSet s.clock options.leaseSeconds) (fun _ => rfl) id⟩
  | nextChunk i stopping =>
      obtain ⟨d, hd, hs⟩ := Option.bind_eq_some_iff.1 hs
      obtain ⟨d', -, rfl⟩ := Option.map_eq_some_iff.1 hs
      exact ⟨[], (List.append_nil _).symm, announces_same fun _ _ => rfl⟩
  | call i outcome =>
      obtain ⟨d, hd, hs⟩ := Option.bind_eq_some_iff.1 hs
      exact announces_runCall h hd hs
  | send i result accepts random =>
      obtain ⟨d, hd, hs⟩ := Option.bind_eq_some_iff.1 hs
      obtain ⟨chunk, entries, key, rest, -, rfl⟩ := runSend_eq_some hs
      exact ⟨[], (List.append_nil _).symm, announces_same fun _ _ => rfl⟩

/-! ## The run -/

/-- Announced once each, and every announced row has left `pending`. -/
def AnnouncedOnce (s : MailState) : Prop :=
  (s.announced.map EmailDeliveryExhausted.messageId).Nodup ∧
    ∀ event ∈ s.announced, statusOf s.table event.messageId ≠ none ∧
      statusOf s.table event.messageId ≠ some .pending

theorem announcedOnce_step {e : MailEvent} (hf : Faithful s) (h : AnnouncedOnce s)
    (hs : mailStep m s e = some s') : AnnouncedOnce s' := by
  obtain ⟨events, hevents, hann⟩ := announces_step hf hs
  have hgone : ∀ event ∈ events, GivesUp s.table s'.table event.messageId := by
    intro event hevent
    by_contra hnot
    have hcount := hann.announced event.messageId
    rw [if_neg hnot, List.count_eq_zero] at hcount
    exact hcount (List.mem_map_of_mem hevent)
  have hnodup : (events.map EmailDeliveryExhausted.messageId).Nodup := by
    refine List.nodup_iff_count_le_one.2 fun id => ?_
    rw [hann.announced id]
    split
    · exact Nat.le_refl 1
    · exact Nat.zero_le 1
  refine ⟨?_, fun event hevent => ?_⟩
  · rw [hevents, List.map_append, List.nodup_append]
    refine ⟨h.1, hnodup, ?_⟩
    rintro id hid _ hid' rfl
    obtain ⟨event, hevent, rfl⟩ := List.mem_map.1 hid
    obtain ⟨event', hevent', heq⟩ := List.mem_map.1 hid'
    exact (h.2 event hevent).2 (heq ▸ (hgone event' hevent').1)
  · rw [hevents] at hevent
    rcases List.mem_append.1 hevent with hold | hnew
    · exact hann.final _ (h.2 event hold).1 (h.2 event hold).2
    · rcases (hgone event hnew).2 with hdead | hfailed
      · rw [hdead]
        exact ⟨nofun, nofun⟩
      · rw [hfailed]
        exact ⟨nofun, nofun⟩

/-- In a run of any number of workers, a row is announced in the step in which
it goes from pending to dead or failed and in no other, so once at most, and
neither a dead row nor any other comes back to pending. -/
theorem exhaustion_announced_once {es : List MailEvent} (hdrains : s.drains = [])
    (hannounced : s.announced = []) (h : exec (mailStep m) s es = some s') :
    (s'.announced.map EmailDeliveryExhausted.messageId).Nodup ∧
      ∀ e v, mailStep m s' e = some v →
        ∃ events, v.announced = s'.announced ++ events ∧ Announces s'.table v.table events := by
  have hinit : Faithful s ∧ AnnouncedOnce s := by
    refine ⟨faithful_init hdrains, ?_⟩
    rw [AnnouncedOnce, hannounced]
    exact ⟨List.nodup_nil, nofun⟩
  have hstep : ∀ x e y, Faithful x ∧ AnnouncedOnce x → mailStep m x e = some y →
      Faithful y ∧ AnnouncedOnce y := fun x e y hi hs =>
    ⟨faithful_step hi.1 hs, announcedOnce_step hi.1 hi.2 hs⟩
  have hrun := runs_inv hstep hinit h
  exact ⟨hrun.2.1, fun e v hs => announces_step hrun.1 hs⟩

end Announce

/-- Both letters are refused, and both are given up. -/
theorem exhaustion_announced_letters :
    ∃ s, exec (mailStep letterMailer) emptyMail
        (lettersSent (.error ⟨.rejected, 422, "invalid from"⟩) unlocked ++ [.call 0 .written]) =
          some s ∧
      s.announced.map EmailDeliveryExhausted.messageId = ["a", "b"] ∧
      (s.announced.map EmailDeliveryExhausted.messageId).Nodup ∧
      ∀ e v, mailStep letterMailer s e = some v →
        ∃ events, v.announced = s.announced ++ events ∧ Announces s.table v.table events := by
  have hrun : (exec (mailStep letterMailer) emptyMail
      (lettersSent (.error ⟨.rejected, 422, "invalid from"⟩) unlocked ++
        [.call 0 .written])).map
      (fun s => s.announced.map EmailDeliveryExhausted.messageId) = some ["a", "b"] := by
    decide
  obtain ⟨s, hs, hids⟩ := Option.map_eq_some_iff.1 hrun
  exact ⟨s, hs, hids, exhaustion_announced_once rfl rfl hs⟩

end CleanStack.Email
