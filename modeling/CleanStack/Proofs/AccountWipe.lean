import CleanStack.Proofs.LastManager

/-!
# A wipe and a cancellation

The sweep reads the date a deletion was put off to, and wipes in a transaction
that looks at `deletedAt` alone. A cancellation that commits in between is
answered with success, and the account is wiped.

Where the row still carries the date that was read, the deletion is pending and
the date has passed, since the clock does not go back. That a date stands on
the row after a cancellation is then followed back to a request: only a
committed request puts one there.
-/

namespace CleanStack.Rgpd

open CleanStack.Lib CleanStack.Drizzle CleanStack.AccessControl CleanStack.Admin

/-! ## What a step commits -/

/-- The step commits a request of the user, put off to `until_`. -/
def CommitsRequest (env : StaffEnv) (s : AccountState) (e : AccountEvent)
    (userId : String) (until_ : Time) : Prop :=
  ∃ i db, e = .commitRequest i ∧ s.requests[i]? = some (userId, until_) ∧
    requestTransaction env s.db s.clock userId until_ = .ok db

def CommitsCancel (s : AccountState) (e : AccountEvent) (userId : String) : Prop :=
  ∃ i, e = .commitCancel i ∧ s.cancels[i]? = some userId

/-- The step wipes the account, on the strength of the date a sweep has read. -/
def CommitsWipe (s : AccountState) (e : AccountEvent) (user : UserRow) (read : Time) : Prop :=
  ∃ i sweep, e = .wipe i ∧ s.sweeps[i]? = some sweep ∧
    sweep.reading = some (user.id, read) ∧
    s.db.users.find? user.id = some user ∧ user.deletedAt = none

/-- Whatever the step wipes is pending deletion, and the date has passed. After
a cancellation in the run before it, a request has committed whose own date has
passed. -/
def Honoured (env : StaffEnv) (settings : RgpdSettings) (s : AccountState)
    (es : List AccountEvent) (m : AccountState) (e : AccountEvent) : Prop :=
  ∀ user read, CommitsWipe m e user read →
    (∃ d, user.pendingDeletionUntil = some d ∧ d ≤ m.clock) ∧
    ∀ before cancel between x, es = before ++ cancel :: between →
      exec (accountStep env settings) s before = some x →
      CommitsCancel x cancel user.id →
      ∃ pre request post z d, between = pre ++ request :: post ∧
        exec (accountStep env settings) s (before ++ cancel :: pre) = some z ∧
        CommitsRequest env z request user.id d ∧ d ≤ m.clock

/-- The row still carries the date the sweep has read. -/
def StillAsRead (s : AccountState) (e : AccountEvent) : Prop :=
  ∀ user read, CommitsWipe s e user read → user.pendingDeletionUntil = some read

/-! ## Where a date comes from -/

def pendingOf (db : StaffDb) (userId : String) : Option Time :=
  (db.users.find? userId).bind UserRow.pendingDeletionUntil

section Pending

variable {env : StaffEnv} {db db' : StaffDb} {now : Time}
  {userId target : String} {input : StaffChange}

theorem staff_users {op : StaffOperation} (h : op.run env db now input = .ok db') :
    db'.users = db.users := by
  cases op with
  | assignRole role expectedRole =>
      obtain ⟨-, -, ⟨rfl, -⟩ | ⟨rfl, -, -⟩⟩ := assignRole_eq_ok h
      · rfl
      · rfl
  | revoke =>
      obtain ⟨-, rfl, -⟩ := revokeStaff_eq_ok h
      rfl
  | setOverride id change =>
      obtain ⟨-, -, -, -, hreplace⟩ := setOverride_eq_ok h
      exact (replaceOverride_eq_some hreplace).1
  | removeOverride overrideId =>
      obtain ⟨-, removed, hrevoke, -⟩ := removeOverride_eq_ok h
      rw [show db' = (revokeOverride db input.targetUserId overrideId now).1 by rw [hrevoke]]
      rfl

theorem pendingOf_updateUser {f : UserRow → UserRow}
    {hf : ∀ u, Keyed.key (f u) = Keyed.key u} :
    pendingOf (updateUser db target f hf) userId =
      (db.users.find? userId).bind fun u =>
        if u.id = target then (f u).pendingDeletionUntil else u.pendingDeletionUntil := by
  rw [pendingOf, find?_updateUser hf, Option.bind_map]
  congr 1
  funext u
  simp only [Function.comp_apply]
  split
  · rfl
  · rfl

theorem pendingOf_ban {expiresIn : Option Nat}
    (h : moderateBan env db now input expiresIn = .ok db') :
    pendingOf db' userId = pendingOf db userId := by
  obtain ⟨-, expiresAt, rfl⟩ := moderateBan_eq_ok h
  rw [pendingOf_updateUser, pendingOf]
  congr 1
  funext u
  exact ite_self _

theorem pendingOf_mark (db : StaffDb) (target userId : String) (until_ : Time) :
    pendingOf (markPendingDeletion db target until_) userId = pendingOf db userId ∨
      (userId = target ∧
        pendingOf (markPendingDeletion db target until_) userId = some until_) := by
  rw [markPendingDeletion, pendingOf_updateUser, pendingOf]
  cases hu : db.users.find? userId with
  | none => exact .inl rfl
  | some u =>
      have hid : u.id = userId := (Table.find?_eq_some.1 hu).2
      rw [Option.bind_some, Option.bind_some]
      split
      · next htarget => exact .inr ⟨hid.symm.trans htarget, rfl⟩
      · exact .inl rfl

theorem pendingOf_clear :
    pendingOf (clearPendingDeletion db target) userId = pendingOf db userId ∨
      pendingOf (clearPendingDeletion db target) userId = none := by
  rw [clearPendingDeletion, pendingOf_updateUser, pendingOf]
  cases db.users.find? userId with
  | none => exact .inl rfl
  | some u =>
      rw [Option.bind_some, Option.bind_some]
      split
      · exact .inr rfl
      · exact .inl rfl

theorem pendingOf_clear_self : pendingOf (clearPendingDeletion db userId) userId = none := by
  rw [clearPendingDeletion, pendingOf_updateUser]
  cases hu : db.users.find? userId with
  | none => rfl
  | some u =>
      have hid : u.id = userId := (Table.find?_eq_some.1 hu).2
      rw [Option.bind_some, if_pos hid]
      rfl

/-- Revoking the staff access leaves the users as the wipe made them. -/
theorem users_wipeTransaction :
    (wipeTransaction db target now).users = (executeWipe db target now).1.users := by
  simp only [wipeTransaction, revokeStaffAccess]
  split
  · rfl
  · split
    · rfl
    · rfl

theorem pendingOf_wipe :
    pendingOf (wipeTransaction db target now) userId = pendingOf db userId ∨
      pendingOf (wipeTransaction db target now) userId = none := by
  rw [pendingOf, users_wipeTransaction, find?_executeWipe, pendingOf]
  cases db.users.find? userId with
  | none => exact .inl rfl
  | some u =>
      rw [Option.map_some, Option.bind_some, Option.bind_some]
      split
      · exact .inr rfl
      · exact .inl rfl

end Pending

section Run

variable {env : StaffEnv} {settings : RgpdSettings} {s m t : AccountState}

/-- A step leaves the date on a user's row, clears it, or commits a request
that puts it there. -/
theorem pendingOf_step {e : AccountEvent} (userId : String)
    (h : accountStep env settings s e = some t) :
    pendingOf t.db userId = pendingOf s.db userId ∨ pendingOf t.db userId = none ∨
      ∃ d, CommitsRequest env s e userId d ∧ pendingOf t.db userId = some d := by
  cases e with
  | staff input op =>
      cases h
      cases hout : op.run env s.db s.clock input with
      | error error => exact .inl rfl
      | ok db =>
          refine .inl ?_
          show pendingOf db userId = _
          rw [pendingOf, staff_users hout, pendingOf]
  | ban input expiresIn =>
      cases h
      cases hout : moderateBan env s.db s.clock input expiresIn with
      | error error => exact .inl rfl
      | ok db => exact .inl (pendingOf_ban hout)
  | beginRequest target c =>
      simp only [accountStep] at h
      split at h <;> cases h
      · exact .inl rfl
      · exact .inl rfl
  | commitRequest i =>
      obtain ⟨⟨target, until_⟩, hi, h⟩ := Option.bind_eq_some_iff.1 h
      cases h
      cases hout : requestTransaction env s.db s.clock target until_ with
      | error error => exact .inl rfl
      | ok db =>
          have hdb : db = markPendingDeletion s.db target until_ := by
            unfold requestTransaction at hout
            split at hout <;> cases hout
            rfl
          rcases pendingOf_mark s.db target userId until_ with hsame | ⟨rfl, hset⟩
          · exact .inl (hdb ▸ hsame)
          · exact .inr (.inr ⟨until_, ⟨i, db, rfl, hi, hout⟩, hdb ▸ hset⟩)
  | beginCancel target =>
      simp only [accountStep] at h
      split at h <;> cases h
      · exact .inl rfl
      · exact .inl rfl
  | commitCancel i =>
      obtain ⟨target, hi, h⟩ := Option.bind_eq_some_iff.1 h
      cases h
      exact pendingOf_clear.imp_right .inl
  | startSweep chosen limit =>
      simp only [accountStep] at h
      split at h <;> cases h
      exact .inl rfl
  | readState i =>
      obtain ⟨sweep, hi, h⟩ := Option.bind_eq_some_iff.1 h
      split at h <;> cases h
      exact .inl rfl
  | wipe i =>
      obtain ⟨sweep, hi, h⟩ := Option.bind_eq_some_iff.1 h
      obtain ⟨⟨target, read⟩, hreading, h⟩ := Option.bind_eq_some_iff.1 h
      cases h
      exact pendingOf_wipe.imp_right .inl
  | dropWipe i =>
      obtain ⟨sweep, hi, h⟩ := Option.bind_eq_some_iff.1 h
      cases h
      exact .inl rfl
  | wait n =>
      cases h
      exact .inl rfl

/-- A date that was not on the row when a run began was put there by a request
committed in the run. -/
theorem request_of_pending {es : List AccountEvent} {userId : String} {d : Time}
    (h : exec (accountStep env settings) s es = some t)
    (hd : pendingOf t.db userId = some d) :
    pendingOf s.db userId = some d ∨ ∃ pre request post z, es = pre ++ request :: post ∧
      exec (accountStep env settings) s pre = some z ∧ CommitsRequest env z request userId d := by
  induction es generalizing s with
  | nil =>
      cases h
      exact .inl hd
  | cons e es ih =>
      obtain ⟨s', hs, hrest⟩ := exec_cons_iff.1 h
      rcases ih hrest with hd' | ⟨pre, request, post, z, rfl, hz, hcommits⟩
      · rcases pendingOf_step userId hs with hsame | hnone | ⟨d', hcommits, hset⟩
        · exact .inl (hsame.symm.trans hd')
        · rw [hnone] at hd'
          cases hd'
        · rw [hset] at hd'
          cases hd'
          exact .inr ⟨[], e, es, s, rfl, rfl, hcommits⟩
      · exact .inr ⟨e :: pre, request, post, z, rfl, exec_cons_iff.2 ⟨s', hs, hz⟩, hcommits⟩

/-! ## What a sweep holds -/

/-- The date a sweep has read has passed. -/
def ReadElapsed (s : AccountState) : Prop :=
  ∀ sweep ∈ s.sweeps, ∀ userId read, sweep.reading = some (userId, read) → read ≤ s.clock

theorem readWipe_elapsed {db : StaffDb} {now : Time} {userId : String} {d : Time}
    (h : readWipe db now userId = some d) : d ≤ now := by
  unfold readWipe at h
  split at h
  · cases h
  · split at h
    · cases h
    · simpa using (Option.filter_eq_some_iff.1 h).2

theorem ReadElapsed.setSweep {i : Nat} {sweep : Sweep} (h : ReadElapsed s)
    (hnew : ∀ userId read, sweep.reading = some (userId, read) → read ≤ s.clock) :
    ReadElapsed (s.setSweep i sweep) := by
  intro other hmem
  rcases List.mem_or_eq_of_mem_set hmem with hold | rfl
  · exact h other hold
  · exact hnew

theorem readElapsed_step {e : AccountEvent} (hi : ReadElapsed s)
    (h : accountStep env settings s e = some t) : ReadElapsed t := by
  have hcommit : ∀ {s' : AccountState} {out : Except AppError StaffDb},
      s'.clock = s.clock → s'.sweeps = s.sweeps → ReadElapsed (s'.commit out) := by
    intro s' out hclock hsweeps
    cases out with
    | ok db =>
        show ∀ sweep ∈ s'.sweeps, ∀ userId read, _ → read ≤ s'.clock
        rw [hclock, hsweeps]
        exact hi
    | error error =>
        show ∀ sweep ∈ s'.sweeps, ∀ userId read, _ → read ≤ s'.clock
        rw [hclock, hsweeps]
        exact hi
  cases e with
  | staff input op =>
      cases h
      exact hcommit rfl rfl
  | ban input expiresIn =>
      cases h
      exact hcommit rfl rfl
  | beginRequest target c =>
      simp only [accountStep] at h
      split at h <;> cases h
      · exact hi
      · exact hi
  | commitRequest i =>
      obtain ⟨⟨target, until_⟩, -, h⟩ := Option.bind_eq_some_iff.1 h
      cases h
      exact hcommit rfl rfl
  | beginCancel target =>
      simp only [accountStep] at h
      split at h <;> cases h
      · exact hi
      · exact hi
  | commitCancel i =>
      obtain ⟨target, -, h⟩ := Option.bind_eq_some_iff.1 h
      cases h
      exact hi
  | startSweep chosen limit =>
      simp only [accountStep] at h
      split at h <;> cases h
      intro sweep hmem
      rcases List.mem_append.1 hmem with hold | hnew
      · exact hi sweep hold
      · cases List.mem_singleton.1 hnew
        exact fun _ _ hreading => by cases hreading
  | readState i =>
      obtain ⟨sweep, -, h⟩ := Option.bind_eq_some_iff.1 h
      split at h <;> cases h
      refine hi.setSweep fun userId read hreading => ?_
      obtain ⟨d, hd, heq⟩ := Option.map_eq_some_iff.1 hreading
      cases heq
      exact readWipe_elapsed hd
  | wipe i =>
      obtain ⟨sweep, -, h⟩ := Option.bind_eq_some_iff.1 h
      obtain ⟨⟨target, read⟩, -, h⟩ := Option.bind_eq_some_iff.1 h
      cases h
      exact hi.setSweep fun _ _ hreading => by cases hreading
  | dropWipe i =>
      obtain ⟨sweep, -, h⟩ := Option.bind_eq_some_iff.1 h
      cases h
      exact hi.setSweep fun _ _ hreading => by cases hreading
  | wait n =>
      cases h
      intro sweep hmem userId read hreading
      exact Nat.le_trans (hi sweep hmem userId read hreading) (Nat.le_add_right _ _)

/-! ## Any run -/

/-- After any run, a wipe that finds the row as it was read honours the
cancellations of the run. -/
theorem cancellation_honoured {es : List AccountEvent} {e : AccountEvent}
    (hstart : s.sweeps = [])
    (hread : StillAsRead m e)
    (hrun : exec (accountStep env settings) s es = some m) :
    Honoured env settings s es m e := by
  have helapsed : ReadElapsed m := by
    refine runs_inv (fun _ _ _ hi hs => readElapsed_step hi hs) ?_ hrun
    intro sweep hmem
    rw [hstart] at hmem
    cases hmem
  intro user read hwipe
  have hpending := hread user read hwipe
  obtain ⟨i, sweep, -, hsweep, hreading, huser, -⟩ := hwipe
  have hle := helapsed sweep (List.mem_of_getElem? hsweep) user.id read hreading
  refine ⟨⟨read, hpending, hle⟩, ?_⟩
  rintro before cancel between x rfl hbefore ⟨k, rfl, hk⟩
  rw [exec_append, hbefore, Option.bind_some] at hrun
  obtain ⟨x', hx', hrest⟩ := exec_cons_iff.1 hrun
  have hcleared : pendingOf x'.db user.id = none := by
    simp only [accountStep, hk] at hx'
    cases hx'
    exact pendingOf_clear_self
  have hset : pendingOf m.db user.id = some read := by
    rw [pendingOf, huser, Option.bind_some, hpending]
  rcases request_of_pending hrest hset with hold | ⟨pre, request, post, z, rfl, hz, hcommits⟩
  · rw [hcleared] at hold
    cases hold
  · refine ⟨pre, request, post, z, read, rfl, ?_, hcommits, hle⟩
    exact exec_trans hbefore (exec_cons_iff.2 ⟨x', hx', hz⟩)

end Run

/-! ## A cancellation that comes to nothing -/

/-- The deletion of `ada` is pending, and its date has come. -/
def adaPending : StaffDb where
  users := ⟨[{ activeUser "ada" with pendingDeletionUntil := some 0 }], by decide +kernel⟩
  members := Table.empty
  overrides := Table.empty

def adaRead : List AccountEvent := [.startSweep ["ada"] 50, .readState 0]

theorem cancelled_account_wiped :
    ¬ ∀ (env : StaffEnv) (settings : RgpdSettings) (s m : AccountState)
      (es : List AccountEvent) (e : AccountEvent), s.sweeps = [] →
      exec (accountStep env settings) s es = some m → Honoured env settings s es m e := by
  intro hall
  have h := hall rootListed ⟨30⟩ (accountsAt adaPending) _
    (adaRead ++ [.beginCancel "ada", .commitCancel 0]) (.wipe 0) rfl rfl
    (activeUser "ada") 0 ⟨0, _, rfl, rfl, rfl, rfl, rfl⟩
  obtain ⟨⟨d, hd, -⟩, -⟩ := h
  cases hd

def adaCancelled : List AccountEvent :=
  [.beginCancel "ada", .commitCancel 0, .beginRequest "ada" ⟨[], none, some true⟩,
    .commitRequest 0, .wait (day * 30)] ++ adaRead

theorem cancellation_honoured_ada :
    ∃ m, exec (accountStep rootListed ⟨30⟩) (accountsAt adaPending) adaCancelled = some m ∧
      CommitsWipe m (.wipe 0) { activeUser "ada" with pendingDeletionUntil := some (day * 30) }
        (day * 30) ∧
      Honoured rootListed ⟨30⟩ (accountsAt adaPending) adaCancelled m (.wipe 0) := by
  refine ⟨_, rfl, ⟨0, _, rfl, rfl, rfl, rfl, rfl⟩, cancellation_honoured rfl ?_ rfl⟩
  rintro user read ⟨i, sweep, he, hsweep, hreading, huser, -⟩
  cases he
  cases hsweep
  obtain ⟨hid, hdate⟩ := Prod.mk.inj (Option.some.inj hreading)
  rw [← hid] at huser
  cases huser
  rw [← hdate]
  rfl

end CleanStack.Rgpd
