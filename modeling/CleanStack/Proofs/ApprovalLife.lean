import CleanStack.Admin.ApprovalService

/-!
# The life of a request

Whatever a transaction does to the approval rows, it does to one request one of
four things: nothing, create it, leave it in its status, or end it
(`RequestStep`). Ending it takes it out of `pending`, announces the status it
ends in, and carries out its action exactly if that status is `executed`.

`DbStep` says so for every request at once. Each transaction is shown to be such
a step, and what the rest of the development needs is read off the step alone.
-/

namespace CleanStack.Admin

open CleanStack.Lib CleanStack.Drizzle CleanStack.AccessControl

/-! ## Endings -/

/-- The statuses a request ends in. -/
def Settled (status : ApprovalStatus) : Prop :=
  status ∈ [ApprovalStatus.executed, .rejected, .failed, .cancelled, .expired]

theorem Settled.ne_pending {status : ApprovalStatus} (h : Settled status) :
    status ≠ .pending := by
  rintro rfl
  rw [Settled] at h
  revert h
  decide

/-- The statuses somebody has decided on. -/
def Decides (status : ApprovalStatus) : Prop := status = .executed ∨ status = .rejected

/-- The final status an announcement is about; that a request was approved is
announced, but ends nothing. -/
def ApprovalNews.ends : ApprovalNews → Option ApprovalStatus
  | .requested => none
  | .decided outcome _ => if outcome = .rejected then some .rejected else none
  | .executed => some .executed
  | .failed _ => some .failed
  | .cancelled => some .cancelled
  | .expired => some .expired

/-- The final statuses announced for a request. -/
def endings (db : ApprovalDb) (id : String) : List ApprovalStatus :=
  db.announcements.filterMap fun a => if a.approvalId = id then a.news.ends else none

/-- Nobody rewrites what a request asks for. -/
structure SameRequest (r r' : ApprovalRecord) : Prop where
  id : r'.id = r.id
  action : r'.action = r.action
  subjectId : r'.subjectId = r.subjectId
  requestedBy : r'.requestedBy = r.requestedBy

theorem SameRequest.refl (r : ApprovalRecord) : SameRequest r r := ⟨rfl, rfl, rfl, rfl⟩

theorem SameRequest.trans {r r' r'' : ApprovalRecord} (h : SameRequest r r')
    (h' : SameRequest r' r'') : SameRequest r r'' :=
  ⟨h'.id.trans h.id, h'.action.trans h.action, h'.subjectId.trans h.subjectId,
    h'.requestedBy.trans h.requestedBy⟩

theorem endings_announce (db : ApprovalDb) (news : ApprovalNews) (record : ApprovalRecord)
    (actorUserId : Option String) (id : String) :
    endings (db.announce news record actorUserId) id =
      endings db id ++ if record.id = id then news.ends.toList else [] := by
  rw [endings, ApprovalDb.announce, List.filterMap_append, ← endings]
  congr 1
  by_cases hid : record.id = id
  · cases hends : news.ends with
    | none => simp [hid, hends]
    | some status => simp [hid, hends]
  · simp [hid]

theorem endings_announceAll {news : ApprovalNews} {status : ApprovalStatus}
    (hends : news.ends = some status) (id : String) (records : List ApprovalRecord) :
    ∀ db : ApprovalDb, endings (db.announceAll news records) id =
      endings db id ++ (records.filter fun r => r.id = id).map fun _ => status := by
  induction records with
  | nil =>
      intro db
      simp [ApprovalDb.announceAll]
  | cons record records ih =>
      intro db
      rw [ApprovalDb.announceAll, ih, endings_announce, hends, List.append_assoc]
      congr 1
      by_cases hid : record.id = id
      · simp [hid]
      · simp [hid]

theorem find?_set (db : ApprovalDb) (chosen : ApprovalRecord → Bool)
    {f : ApprovalRecord → ApprovalRecord} (hf : ∀ r, Keyed.key (f r) = Keyed.key r)
    (id : String) : (db.set chosen f hf).1.approvals.find? id =
      (db.approvals.find? id).map fun r => if chosen r then f r else r := by
  rw [ApprovalDb.set, Table.find?_update]

theorem announceAll_rows (news : ApprovalNews) (records : List ApprovalRecord) :
    ∀ db : ApprovalDb, (db.announceAll news records).approvals = db.approvals ∧
      (db.announceAll news records).effects = db.effects := by
  induction records with
  | nil => exact fun db => ⟨rfl, rfl⟩
  | cons record records ih => exact fun db => ih (db.announce news record none)

/-! ## Steps -/

/-- What happens to one request: its row before and after, the final statuses
announced, and how often its action is carried out. `decider` is who decides,
and on which request. -/
inductive RequestStep (decider : Option (String × String)) :
    Option ApprovalRecord → Option ApprovalRecord → List ApprovalStatus → Nat → Prop
  | absent : RequestStep decider none none [] 0
  | created (r : ApprovalRecord) (hpending : r.status = .pending) :
      RequestStep decider none (some r) [] 0
  | kept (r r' : ApprovalRecord) (hsame : SameRequest r r') (hstatus : r'.status = r.status)
      (hdecided : r'.decidedBy = r.decidedBy) : RequestStep decider (some r) (some r') [] 0
  | ended (r r' : ApprovalRecord) (hpending : r.status = .pending)
      (hsettled : Settled r'.status) (hsame : SameRequest r r')
      (hdecides : Decides r'.status →
        ∃ who, decider = some (r.id, who) ∧ r'.decidedBy = some who) :
      RequestStep decider (some r) (some r') [r'.status]
        (if r'.status = .executed then 1 else 0)

structure DbStep (decider : Option (String × String)) (db db' : ApprovalDb) : Prop where
  each : ∀ id, ∃ news n,
    RequestStep decider (db.approvals.find? id) (db'.approvals.find? id) news n ∧
      endings db' id = endings db id ++ news ∧
      db'.effects.count id = db.effects.count id + n
  /-- A new request is the only open one for its action and subject. -/
  fresh : ∀ id r, db.approvals.find? id = none → db'.approvals.find? id = some r →
    ∀ id' r', db'.approvals.find? id' = some r' → r'.status = .pending →
      r'.action = r.action → r'.subjectId = r.subjectId → id' = id

section Step

variable {decider : Option (String × String)} {db db' : ApprovalDb}

theorem DbStep.refl (decider : Option (String × String)) (db : ApprovalDb) :
    DbStep decider db db := by
  refine ⟨fun id => ⟨[], 0, ?_, by simp, rfl⟩, fun id r hnone hsome => ?_⟩
  · cases db.approvals.find? id with
    | none => exact .absent
    | some r => exact .kept r r (.refl r) rfl rfl
  · rw [hnone] at hsome
    cases hsome

/-- A row stays, with what it asks for, and one that has ended stays as it is. -/
theorem DbStep.row (h : DbStep decider db db') {id : String} {r : ApprovalRecord}
    (hr : db.approvals.find? id = some r) :
    ∃ r', db'.approvals.find? id = some r' ∧ SameRequest r r' ∧
      (r.status ≠ .pending → r'.status = r.status ∧ r'.decidedBy = r.decidedBy) := by
  obtain ⟨news, n, hstep, -, -⟩ := h.each id
  rw [hr] at hstep
  generalize hr' : db'.approvals.find? id = found at hstep
  cases hstep with
  | kept _ r' hsame hstatus hdecided => exact ⟨r', rfl, hsame, fun _ => ⟨hstatus, hdecided⟩⟩
  | ended _ r' hpending _ hsame _ => exact ⟨r', rfl, hsame, fun hne => absurd hpending hne⟩

/-- A decided row was decided before, or is what the decider has decided. -/
theorem DbStep.decided (h : DbStep decider db db') {id : String} {r' : ApprovalRecord}
    (hr' : db'.approvals.find? id = some r') (hdecides : Decides r'.status) :
    (∃ r, db.approvals.find? id = some r ∧ SameRequest r r' ∧ r'.status = r.status ∧
      r'.decidedBy = r.decidedBy) ∨
    ∃ who, decider = some (r'.id, who) ∧ r'.decidedBy = some who := by
  obtain ⟨news, n, hstep, -, -⟩ := h.each id
  rw [hr'] at hstep
  generalize hr : db.approvals.find? id = found at hstep
  cases hstep with
  | created _ hpending =>
      rw [hpending] at hdecides
      exact absurd hdecides (by rintro (h | h) <;> cases h)
  | kept r _ hsame hstatus hdecided => exact .inl ⟨r, rfl, hsame, hstatus, hdecided⟩
  | ended r _ _ _ hsame hby =>
      obtain ⟨who, hwho, hdecided⟩ := hby hdecides
      exact .inr ⟨who, by rw [hwho, hsame.id], hdecided⟩

/-! ## What every step keeps -/

/-- A request that is open has no ending, and one that has ended has one, and
its action carried out if it was executed. -/
def LifeOk : Option ApprovalRecord → List ApprovalStatus → Nat → Prop
  | none, news, n => news = [] ∧ n = 0
  | some r, news, n =>
      (r.status = .pending ∧ news = [] ∧ n = 0) ∨
      (Settled r.status ∧ news = [r.status] ∧ n = if r.status = .executed then 1 else 0)

structure Sound (db : ApprovalDb) : Prop where
  life : ∀ id, LifeOk (db.approvals.find? id) (endings db id) (db.effects.count id)
  onePending : ∀ id id' r r', db.approvals.find? id = some r →
    db.approvals.find? id' = some r' → r.status = .pending → r'.status = .pending →
    r.action = r'.action → r.subjectId = r'.subjectId → id = id'

theorem RequestStep.life {before after : Option ApprovalRecord} {news : List ApprovalStatus}
    {n : Nat} (h : RequestStep decider before after news n) {old : List ApprovalStatus}
    {m : Nat} (hok : LifeOk before old m) : LifeOk after (old ++ news) (m + n) := by
  cases h with
  | absent => simpa [LifeOk] using hok
  | created r hpending =>
      obtain ⟨rfl, rfl⟩ := hok
      exact .inl ⟨hpending, rfl, rfl⟩
  | kept r r' _ hstatus _ => simpa [LifeOk, hstatus] using hok
  | ended r r' hpending hsettled _ _ =>
      rcases hok with ⟨-, rfl, rfl⟩ | ⟨hended, -, -⟩
      · exact .inr ⟨hsettled, rfl, Nat.zero_add _⟩
      · exact absurd hpending hended.ne_pending

/-- An open row of the new state was open before, or is new. -/
theorem DbStep.open_before (h : DbStep decider db db') {id : String} {r' : ApprovalRecord}
    (hr' : db'.approvals.find? id = some r') (hpending : r'.status = .pending) :
    db.approvals.find? id = none ∨
      ∃ r, db.approvals.find? id = some r ∧ SameRequest r r' ∧ r.status = .pending := by
  obtain ⟨news, n, hstep, -, -⟩ := h.each id
  rw [hr'] at hstep
  generalize hr : db.approvals.find? id = found at hstep
  cases hstep with
  | created => exact .inl rfl
  | kept r _ hsame hstatus _ => exact .inr ⟨r, rfl, hsame, hstatus ▸ hpending⟩
  | ended _ _ _ hsettled _ _ => exact absurd hpending hsettled.ne_pending

theorem Sound.step (hi : Sound db) (h : DbStep decider db db') : Sound db' := by
  constructor
  · intro id
    obtain ⟨news, n, hstep, hnews, hcount⟩ := h.each id
    rw [hnews, hcount]
    exact hstep.life (hi.life id)
  · intro id id' r r' hr hr' hp hp' haction hsubject
    rcases h.open_before hr hp with hnone | ⟨r₀, hr₀, hsame, hp₀⟩
    · exact (h.fresh id r hnone hr id' r' hr' hp' haction.symm hsubject.symm).symm
    · rcases h.open_before hr' hp' with hnone' | ⟨r₀', hr₀', hsame', hp₀'⟩
      · exact h.fresh id' r' hnone' hr' id r hr hp haction hsubject
      · refine hi.onePending id id' r₀ r₀' hr₀ hr₀' hp₀ hp₀' ?_ ?_
        · rw [← hsame.action, ← hsame'.action, haction]
        · rw [← hsame.subjectId, ← hsame'.subjectId, hsubject]

/-! ## The transactions are steps -/

/-- Some pending rows end, everything else is kept, and each ending is
announced. -/
theorem dbStep_of_ended {chosen : ApprovalRecord → Bool}
    {f : ApprovalRecord → ApprovalRecord} {status : ApprovalStatus}
    (hrows : ∀ id, db'.approvals.find? id =
      (db.approvals.find? id).map fun r => if chosen r then f r else r)
    (hpending : ∀ r, chosen r = true → r.status = .pending)
    (hf : ∀ r, chosen r = true → SameRequest r (f r) ∧ (f r).status = status)
    (hsettled : Settled status)
    (hdecides : ∀ r, chosen r = true → Decides status →
      ∃ who, decider = some (r.id, who) ∧ (f r).decidedBy = some who)
    (hnews : ∀ id, endings db' id = endings db id ++
      if (db.approvals.find? id).any chosen then [status] else [])
    (heffects : ∀ id, db'.effects.count id = db.effects.count id +
      if (db.approvals.find? id).any chosen && status = .executed then 1 else 0) :
    DbStep decider db db' := by
  constructor
  · intro id
    refine ⟨_, _, ?_, hnews id, heffects id⟩
    rw [hrows]
    cases db.approvals.find? id with
    | none => exact .absent
    | some r =>
        by_cases hc : chosen r = true
        · obtain ⟨hsame, hstatus⟩ := hf r hc
          have hended : RequestStep decider (some r) (some (f r)) [(f r).status]
              (if (f r).status = .executed then 1 else 0) :=
            .ended r (f r) (hpending r hc) (hstatus ▸ hsettled) hsame
              fun hd => hdecides r hc (hstatus ▸ hd)
          simpa [hc, hstatus] using hended
        · have hkept : RequestStep decider (some r) (some r) [] 0 :=
            .kept r r (.refl r) rfl rfl
          simpa [hc] using hkept
  · intro id r hnone hsome
    rw [hrows, hnone] at hsome
    cases hsome

theorem dbStep_of_kept {chosen : ApprovalRecord → Bool} {f : ApprovalRecord → ApprovalRecord}
    (hf : ∀ r, Keyed.key (f r) = Keyed.key r)
    (hkept : ∀ r, SameRequest r (f r) ∧ (f r).status = r.status ∧
      (f r).decidedBy = r.decidedBy) :
    DbStep decider db (db.set chosen f hf).1 := by
  constructor
  · intro id
    refine ⟨[], 0, ?_, (List.append_nil _).symm, rfl⟩
    rw [find?_set db chosen hf]
    cases db.approvals.find? id with
    | none => exact .absent
    | some r =>
        rw [Option.map_some]
        split
        · exact .kept r (f r) (hkept r).1 (hkept r).2.1 (hkept r).2.2
        · exact .kept r r (.refl r) rfl rfl
  · intro id r hnone hsome
    rw [find?_set db chosen hf, hnone] at hsome
    cases hsome

/-- The rows a statement ends, announced one after the other. -/
theorem set_announceAll_step {chosen : ApprovalRecord → Bool}
    {f : ApprovalRecord → ApprovalRecord} (hf : ∀ r, Keyed.key (f r) = Keyed.key r)
    {status : ApprovalStatus} {news : ApprovalNews} (hends : news.ends = some status)
    (hpending : ∀ r, chosen r = true → r.status = .pending)
    (hsame : ∀ r, SameRequest r (f r) ∧ (f r).status = status)
    (hsettled : Settled status) (hnot : ¬ Decides status) :
    DbStep decider db
      ((db.set chosen f hf).1.announceAll news (db.set chosen f hf).2) := by
  obtain ⟨hrows, heffects⟩ := announceAll_rows news (db.set chosen f hf).2 (db.set chosen f hf).1
  have hne : status ≠ .executed := fun h => hnot (.inl h)
  refine dbStep_of_ended (f := f) ?_ hpending (fun r _ => hsame r) hsettled
    (fun _ _ hd => absurd hd hnot) ?_ ?_
  · intro id
    rw [hrows, find?_set]
  · intro id
    rw [endings_announceAll hends]
    have hfilter : (db.set chosen f hf).2.filter (fun r => r.id = id) =
        (((db.approvals.find? id).filter chosen).map f).toList :=
      Table.filter_key_returning hf id
    rw [hfilter]
    show endings db id ++ _ = _
    cases db.approvals.find? id with
    | none => rfl
    | some r => by_cases hc : chosen r = true <;> simp [hc, Option.filter]
  · intro id
    rw [heffects]
    simp [hne, ApprovalDb.set]

/-- A statement that ends one row, and its announcement. -/
theorem set_announce_step {chosen : ApprovalRecord → Bool}
    {f : ApprovalRecord → ApprovalRecord} (hf : ∀ r, Keyed.key (f r) = Keyed.key r)
    {status : ApprovalStatus} {news : ApprovalNews} {record : ApprovalRecord}
    (actorUserId : Option String) (hends : news.ends = some status)
    (hone : ∀ r, chosen r = true → r.id = record.id ∧ r.status = .pending)
    (hsome : ∃ r ∈ db.approvals.rows, chosen r = true)
    (hsame : ∀ r, SameRequest r (f r) ∧ (f r).status = status)
    (hsettled : Settled status) (hne : status ≠ .executed)
    (hdecides : Decides status →
      ∃ who, decider = some (record.id, who) ∧ ∀ r, (f r).decidedBy = some who) :
    DbStep decider db ((db.set chosen f hf).1.announce news record actorUserId) := by
  obtain ⟨r₀, hr₀, hc₀⟩ := hsome
  have hfound : db.approvals.find? record.id = some r₀ :=
    Table.find?_eq_some.2 ⟨hr₀, (hone r₀ hc₀).1⟩
  refine dbStep_of_ended (f := f) (fun id => find?_set db chosen hf id)
    (fun r hc => (hone r hc).2) (fun r _ => hsame r) hsettled ?_ ?_ ?_
  · intro r hc hd
    obtain ⟨who, hwho, hby⟩ := hdecides hd
    exact ⟨who, by rw [hwho, (hone r hc).1], hby r⟩
  · intro id
    rw [endings_announce, hends]
    show endings db id ++ _ = _
    by_cases hid : record.id = id
    · subst hid
      simp [hfound, hc₀]
    · have hnone : (db.approvals.find? id).any chosen = false := by
        cases hr : db.approvals.find? id with
        | none => rfl
        | some r =>
            rw [Option.any_some, Bool.eq_false_iff]
            exact fun hc => hid ((hone r hc).1.symm.trans (Table.find?_eq_some.1 hr).2)
      simp [hid, hnone]
  · intro id
    simp [hne, ApprovalDb.set, ApprovalDb.announce]

theorem sameRequest_endRow (status : ApprovalStatus) (now : Time) (r : ApprovalRecord) :
    SameRequest r (endRow status now r) ∧ (endRow status now r).status = status :=
  ⟨⟨rfl, rfl, rfl, rfl⟩, rfl⟩

theorem pendingAndDue_pending {now : Time} {r : ApprovalRecord}
    (h : pendingAndDue now r = true) : r.status = .pending := by
  simp only [pendingAndDue, Bool.and_eq_true, decide_eq_true_eq] at h
  exact h.1

theorem pendingAndLive_pending {now : Time} {r : ApprovalRecord}
    (h : pendingAndLive now r = true) : r.status = .pending := by
  simp only [pendingAndLive, Bool.and_eq_true, decide_eq_true_eq] at h
  exact h.1

variable {now : Time} {record : ApprovalRecord} {input : ApprovalDecision}

theorem expireTransaction_step (batch : List String) :
    DbStep decider db (expireTransaction db now batch) := by
  refine set_announceAll_step (key_endRow .expired now) rfl (fun r hc => ?_)
    (sameRequest_endRow .expired now) (by rw [Settled]; decide)
    (by rintro (h | h) <;> cases h)
  rw [Bool.and_eq_true] at hc
  exact pendingAndDue_pending hc.2

theorem expireDueFor_step (now : Time) (action : ApprovalAction) (subjectId : String) :
    DbStep decider db ((expireDueFor db action subjectId now).1.announceAll .expired
      (expireDueFor db action subjectId now).2) := by
  refine set_announceAll_step (key_endRow .expired now) rfl (fun r hc => ?_)
    (sameRequest_endRow .expired now) (by rw [Settled]; decide)
    (by rintro (h | h) <;> cases h)
  rw [Bool.and_eq_true] at hc
  exact pendingAndDue_pending hc.2

theorem announceAll_set (news : ApprovalNews) (chosen : ApprovalRecord → Bool)
    {f : ApprovalRecord → ApprovalRecord} (hf : ∀ r, Keyed.key (f r) = Keyed.key r)
    (records : List ApprovalRecord) : ∀ db : ApprovalDb,
    (db.set chosen f hf).1.announceAll news records =
      ((db.announceAll news records).set chosen f hf).1 := by
  induction records with
  | nil => exact fun db => rfl
  | cons record records ih => exact fun db => ih (db.announce news record none)

/-- The open requests of a deleted user end, then texts are erased. -/
theorem closeTransaction_steps (decider : Option (String × String)) (db : ApprovalDb)
    (now : Time) (userId : String) :
    ∃ mid, DbStep decider db mid ∧ DbStep decider mid (closeTransaction db now userId) := by
  have hclosed : DbStep decider db
      ((db.set (isOpenOf userId) (endRow .cancelled now) (key_endRow .cancelled now)).1.announceAll
        .cancelled (db.approvals.returning (isOpenOf userId) (endRow .cancelled now))) := by
    refine set_announceAll_step (key_endRow .cancelled now) rfl (fun r hc => ?_)
      (sameRequest_endRow .cancelled now) (by rw [Settled]; decide)
      (by rintro (h | h) <;> cases h)
    simp only [isOpenOf, Bool.and_eq_true, decide_eq_true_eq] at hc
    exact hc.1
  refine ⟨_, hclosed, ?_⟩
  have herased := announceAll_set .cancelled (fun r => r.subjectId = userId) key_erasedRow
  simp only [closeTransaction, closeForDeletedUser, herased]
  exact dbStep_of_kept key_erasedRow fun r => ⟨⟨rfl, rfl, rfl, rfl⟩, rfl, rfl⟩

theorem cancelTransaction_step {userId : String}
    (h : cancelTransaction db now record userId = .ok db') : DbStep decider db db' := by
  unfold cancelTransaction at h
  split at h
  · cases h
  · next cancelled first rest hcancel =>
      cases h
      have hmem : first ∈ (cancel db record.id userId now).2 := by rw [hcancel]; simp
      obtain ⟨r, hr, hc, -⟩ := Table.mem_returning.1 hmem
      have hdb : cancelled = (cancel db record.id userId now).1 := by rw [hcancel]
      rw [hdb]
      refine set_announce_step (key_endRow .cancelled now) (some userId) rfl (fun r hc => ?_)
        ⟨r, hr, hc⟩ (sameRequest_endRow .cancelled now) (by rw [Settled]; decide) (by decide)
        (by rintro (h | h) <;> cases h)
      simp only [Bool.and_eq_true, decide_eq_true_eq] at hc
      exact ⟨hc.1.1, pendingAndLive_pending hc.2⟩

theorem failureTransaction_step (reason : String) :
    DbStep decider db (failureTransaction db now record input reason) := by
  unfold failureTransaction
  split
  · exact .refl decider db
  · exact .refl decider db
  · next marked hmark =>
      unfold markFailed at hmark
      split at hmark
      · cases hmark
      · simp only [Option.some.injEq, Prod.mk.injEq] at hmark
        obtain ⟨rfl, hsome⟩ := hmark
        rw [Bool.not_eq_true', List.isEmpty_eq_false_iff_exists_mem] at hsome
        obtain ⟨r', hr'⟩ := hsome
        obtain ⟨r, hr, hc, -⟩ := Table.mem_returning.1 hr'
        refine set_announce_step (key_failedRow _ now) _ rfl (fun r hc => ?_) ⟨r, hr, hc⟩
          (fun r => ⟨⟨rfl, rfl, rfl, rfl⟩, rfl⟩) (by rw [Settled]; decide) (by decide)
          (by rintro (h | h) <;> cases h)
        simp only [stillPending, Bool.and_eq_true, decide_eq_true_eq] at hc
        exact hc

/-- A claim that goes through has found the row pending. -/
theorem claimFor_eq_ok {status : ApprovalStatus} {claimed : ApprovalRecord}
    (h : claimFor db now record input status = .ok (db', claimed)) :
    ∃ c : ApprovalClaim, c = ⟨record.id, status, input.deciderUserId, input.note⟩ ∧
      (∃ r ∈ db.approvals.rows, claimable c now r = true ∧ claimed = claimRow c now r) ∧
      db' = (db.set (claimable c now) (claimRow c now) (key_claimRow c now)).1.announce
        (.decided status input.note) record (some input.deciderUserId) := by
  refine ⟨_, rfl, ?_⟩
  unfold claimFor at h
  split at h
  · cases h
  · cases h
  · next db₁ first hclaim =>
      cases h
      unfold claim at hclaim
      split at hclaim
      · cases hclaim
      · simp only [Option.some.injEq, Prod.mk.injEq] at hclaim
        obtain ⟨rfl, hhead⟩ := hclaim
        obtain ⟨r, hr, hc, heq⟩ := Table.mem_returning.1 (List.mem_of_head? hhead)
        exact ⟨⟨r, hr, hc, heq⟩, rfl⟩

theorem claimable_eq {c : ApprovalClaim} {r : ApprovalRecord} (h : claimable c now r = true) :
    r.id = c.id ∧ r.status = .pending := by
  simp only [claimable, Bool.and_eq_true, decide_eq_true_eq] at h
  exact ⟨h.1, pendingAndLive_pending h.2⟩

theorem rejectTransaction_step (h : rejectTransaction db now record input = .committed db') :
    DbStep (some (record.id, input.deciderUserId)) db db' := by
  unfold rejectTransaction at h
  split at h
  · cases h
  · next db₁ claimed hclaim =>
      cases h
      obtain ⟨c, rfl, ⟨r, hr, hc, -⟩, rfl⟩ := claimFor_eq_ok hclaim
      exact set_announce_step (key_claimRow _ now) _ rfl (fun r hc => claimable_eq hc)
        ⟨r, hr, hc⟩ (fun r => ⟨⟨rfl, rfl, rfl, rfl⟩, rfl⟩) (by rw [Settled]; decide) (by decide)
        fun _ => ⟨_, rfl, fun r => rfl⟩

/-- A request that is claimed, carried out and marked in one transaction. -/
theorem executed_step {c : ApprovalClaim} {r : ApprovalRecord} {staff : StaffDb}
    {note : String} {actorUserId : Option String}
    (hid : c.id = record.id) (hr : r ∈ db.approvals.rows) (hc : claimable c now r = true)
    (hstatus : c.status = .approved) :
    DbStep (some (record.id, c.decidedBy)) db
      ((markExecuted
        { (db.set (claimable c now) (claimRow c now) (key_claimRow c now)).1.announce
            (.decided .approved note) record actorUserId with
          staff := staff
          effects := db.effects ++ [r.id] }
        r.id (r.version + 1)).1.announce .executed record actorUserId) := by
  obtain ⟨hrid, hrpending⟩ := claimable_eq hc
  have hfound : db.approvals.find? record.id = some r :=
    Table.find?_eq_some.2 ⟨hr, hrid.trans hid⟩
  have hchosen : ∀ id, (db.approvals.find? id).any (claimable c now) =
      decide (record.id = id) := by
    intro id
    by_cases heq : record.id = id
    · subst heq
      simp [hfound, hc]
    · rw [decide_eq_false heq]
      cases hr' : db.approvals.find? id with
      | none => rfl
      | some r' =>
          rw [Option.any_some, Bool.eq_false_iff]
          intro hc'
          have hr'id : r'.id = id := (Table.find?_eq_some.1 hr').2
          exact heq (hid.symm.trans ((claimable_eq hc').1.symm.trans hr'id))
  have hpending : ∀ r', claimable c now r' = true → r'.status = .pending :=
    fun r' hc' => (claimable_eq hc').2
  have hexecuted : ∀ r', claimable c now r' = true →
      SameRequest r' (executedRow (claimRow c now r')) ∧
        (executedRow (claimRow c now r')).status = .executed :=
    fun r' _ => ⟨⟨rfl, rfl, rfl, rfl⟩, rfl⟩
  refine dbStep_of_ended (f := fun r => executedRow (claimRow c now r)) ?_ hpending hexecuted
    (by rw [Settled]; decide)
    (fun r' hc' _ => ⟨c.decidedBy, by rw [(claimable_eq hc').1, hid], rfl⟩) ?_ ?_
  · intro id
    show ((db.approvals.update (claimable c now) (claimRow c now) (key_claimRow c now)).update
      _ executedRow key_executedRow).find? id = _
    rw [Table.find?_update, Table.find?_update, Option.map_map]
    cases hr' : db.approvals.find? id with
    | none => rfl
    | some r' =>
        have hany := hchosen id
        rw [hr', Option.any_some] at hany
        by_cases heq : record.id = id
        · subst heq
          rw [hfound] at hr'
          cases hr'
          simp [hc, claimRow, hstatus]
        · have hne : ¬ r'.id = r.id := by
            have hr'id : r'.id = id := (Table.find?_eq_some.1 hr').2
            rw [hr'id, hrid, hid]
            exact Ne.symm heq
          simp [hany, heq, hne]
  · intro id
    rw [endings_announce, hchosen]
    show endings (ApprovalDb.announce _ _ _ _) id ++ _ = _
    rw [endings_announce]
    show (endings db id ++ _) ++ _ = _
    by_cases heq : record.id = id
    · simp [heq, ApprovalNews.ends]
    · simp [heq]
  · intro id
    rw [hchosen]
    show (db.effects ++ [r.id]).count id = _
    rw [List.count_append, hrid, hid]
    by_cases heq : record.id = id
    · simp [heq]
    · simp [heq]

theorem approveTransaction_step {safeParse : ApprovalAction → Kit.JsValue → Option Kit.JsValue}
    {run : HandlerRun}
    (h : approveTransaction safeParse db now record input run = .committed db') :
    DbStep (some (record.id, input.deciderUserId)) db db' := by
  unfold approveTransaction at h
  split at h
  · cases h
  · next db₁ claimed hclaim =>
      split at h
      · cases h
      · cases run with
        | threw => cases h
        | failed error => cases h
        | ok staff =>
            dsimp only at h
            split at h
            · cases h
            · next marked hmark =>
                cases h
                obtain ⟨c, rfl, ⟨r, hr, hclaimable, rfl⟩, rfl⟩ := claimFor_eq_ok hclaim
                have hmarked := congrArg Prod.fst hmark
                dsimp only at hmarked
                rw [← hmarked]
                exact executed_step rfl hr hclaimable rfl

/-- A new request, announced. -/
theorem created_step {id : String} {write : ApprovalWrite} {approvals : Table ApprovalRecord}
    {actorUserId : Option String}
    (hnone : db.approvals.rows.find? (isOpenFor write.action write.subjectId) = none)
    (hins : db.approvals.insert (newRecord id write now) = some approvals) :
    DbStep decider db (ApprovalDb.announce { db with approvals := approvals } .requested
      (newRecord id write now) actorUserId) := by
  have hfind : ∀ i, approvals.find? i =
      if id = i then some (newRecord id write now) else db.approvals.find? i :=
    fun i => Table.find?_insert hins i
  constructor
  · intro i
    refine ⟨[], 0, ?_, ?_, rfl⟩
    · show RequestStep decider _ (approvals.find? i) [] 0
      rw [hfind]
      by_cases hi : id = i
      · have hfresh : db.approvals.find? i = none :=
          Table.find?_eq_none.2 fun r hr => hi ▸ Table.insert_fresh hins r hr
        rw [if_pos hi, hfresh]
        exact .created _ rfl
      · rw [if_neg hi]
        cases db.approvals.find? i with
        | none => exact .absent
        | some r => exact .kept r r (.refl r) rfl rfl
    · rw [endings_announce]
      show endings db i ++ _ = _
      simp [ApprovalNews.ends]
  · intro i r hbefore hafter i' r' hr' hpending haction hsubject
    have hafter : approvals.find? i = some r := hafter
    have hr' : approvals.find? i' = some r' := hr'
    rw [hfind] at hafter hr'
    split at hafter
    · next hi =>
        cases hafter
        split at hr'
        · next hi' => exact hi'.symm.trans hi
        · -- the open row would have stood in the way
          have hopen := List.find?_eq_none.1 hnone r' (Table.find?_eq_some.1 hr').1
          exact absurd (by simp [isOpenFor, hpending, haction, hsubject, newRecord]) hopen
    · rw [hbefore] at hafter
      cases hafter

theorem gateTransaction_steps (decider : Option (String × String))
    {settings : ApprovalSettings} {id approvalId : String}
    {request : ApprovalRequest} {params : Kit.JsValue}
    (h : gateTransaction settings db now id request params = .ok (db', approvalId)) :
    ∃ mid, DbStep decider db mid ∧ DbStep decider mid db' := by
  refine ⟨_, expireDueFor_step now request.action request.subjectId, ?_⟩
  unfold gateTransaction at h
  dsimp only at h
  split at h
  · cases h
  · next created record isNew hcreate =>
      unfold create at hcreate
      split at hcreate
      · cases hcreate
        split at h
        · cases h
        · cases h
          exact .refl decider _
      · next hnone =>
          obtain ⟨approvals, hins, heq⟩ := Option.map_eq_some_iff.1 hcreate
          cases heq
          cases h
          exact created_step hnone hins

end Step

end CleanStack.Admin
