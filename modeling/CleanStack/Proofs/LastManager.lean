import CleanStack.Proofs.StaffAccess
import CleanStack.Rgpd.AccountDeletion

/-!
# Somebody manages the staff

Every operation that takes a manager away asks the same question of the locked
rows, and `isLastManager_eq_false` says what a favourable answer means: another
person manages the staff effectively. Each transaction is then compared with
the state before it, person by person. Nobody but its target stops being a
manager, and the target stops only if another one is there (`Replaces`).

Two steps of an account deletion are not covered. A person the environment
lists may request the deletion of their account although nobody else manages
the staff; they are the recovery, and come back by cancelling. And a wipe that
runs on an account whose deletion is no longer pending asks nothing.
-/

namespace CleanStack.Rgpd

open CleanStack.Lib CleanStack.Drizzle CleanStack.AccessControl CleanStack.Admin

/-! ## Effective managers -/

/-- The person's staff row makes them a manager, their account is in use, and
they may manage the staff: nothing denies it, or the environment lists them. -/
def EffectiveManager (env : StaffEnv) (db : StaffDb) (now : Time) (userId : String) : Prop :=
  Grants db env userId .manager ∧
  (∃ owner, db.users.find? userId = some owner ∧ stillCountsAsManager owner now = true) ∧
  (LiveOverride .deny db userId now .staffManage → env.isListed userId = true)

section Managers

variable {env : StaffEnv} {db db' : StaffDb} {now : Time} {userId other : String}

theorem any_deniesManagement :
    db.overrides.rows.any (deniesManagement now userId) = true ↔
      LiveOverride .deny db userId now .staffManage := by
  rw [List.any_eq_true]
  refine exists_congr fun r => and_congr_right fun _ => ?_
  simp only [deniesManagement, isLiveRow, Bool.and_eq_true, decide_eq_true_eq]
  constructor
  · rintro ⟨⟨⟨⟨hu, hperm⟩, heffect⟩, hrev⟩, hlive⟩
    exact ⟨hu, hrev, hperm, heffect, hlive⟩
  · rintro ⟨hu, hrev, hperm, heffect, hlive⟩
    exact ⟨⟨⟨⟨hu, hperm⟩, heffect⟩, hrev⟩, hlive⟩

theorem mem_lockActiveManagers {record : StaffManagerRecord} :
    record ∈ lockActiveManagers db now ↔
      ∃ m ∈ db.members.rows, isActiveManager m = true ∧
        (∃ owner, db.users.find? m.userId = some owner ∧
          stillCountsAsManager owner now = true) ∧
        record = ⟨m.userId, m.source,
          db.overrides.rows.any (deniesManagement now m.userId)⟩ := by
  simp only [lockActiveManagers, List.mem_filterMap, List.mem_filter, and_assoc]
  refine exists_congr fun m => and_congr_right fun _ => and_congr_right fun _ => ?_
  cases db.users.find? m.userId with
  | none =>
      refine iff_of_false (fun h => by cases h) fun h => ?_
      obtain ⟨⟨owner, howner, -⟩, -⟩ := h
      cases howner
  | some owner =>
      dsimp only
      split
      · next hcounts =>
          rw [Option.some.injEq, eq_comm]
          exact ⟨fun h => ⟨⟨owner, rfl, hcounts⟩, h⟩, fun h => h.2⟩
      · next hcounts =>
          refine iff_of_false (fun h => by cases h) fun h => ?_
          obtain ⟨⟨_, howner, hc⟩, -⟩ := h
          cases howner
          exact hcounts hc

/-- The locked rows that still manage are the effective managers. -/
theorem effective_iff_locked :
    EffectiveManager env db now userId ↔
      ∃ record ∈ lockActiveManagers db now, record.userId = userId ∧
        grantsStaffAccess record.userId record.source env = true ∧
        stillManages env record = true := by
  constructor
  · rintro ⟨⟨m, hm, hrev, hrole, hgrants, -⟩, howner, hdenied⟩
    obtain ⟨hmem, hid⟩ := Table.find?_eq_some.1 hm
    have hid : m.userId = userId := hid
    refine ⟨_, mem_lockActiveManagers.2 ⟨m, hmem, by simp [isActiveManager, hrole, hrev],
      hid ▸ howner, rfl⟩, hid, by rw [hid]; exact hgrants, ?_⟩
    rw [stillManages, hid, Bool.or_eq_true, Bool.not_eq_true']
    by_cases hdeny : LiveOverride .deny db userId now .staffManage
    · exact .inr (hdenied hdeny)
    · rw [← any_deniesManagement, Bool.not_eq_true] at hdeny
      exact .inl hdeny
  · rintro ⟨record, hmem, rfl, hgrants, hmanages⟩
    obtain ⟨m, hm, hactive, ⟨owner, howner, hcounts⟩, rfl⟩ := mem_lockActiveManagers.1 hmem
    simp only [isActiveManager, Bool.and_eq_true, decide_eq_true_eq] at hactive
    refine ⟨⟨m, Table.find?_eq_some.2 ⟨hm, rfl⟩, hactive.2, hactive.1, hgrants,
      by rw [howner]; rfl⟩, ⟨owner, howner, hcounts⟩, fun hdeny => ?_⟩
    rw [stillManages, Bool.or_eq_true, Bool.not_eq_true', any_deniesManagement.2 hdeny] at hmanages
    simpa using hmanages

theorem isLastManager_eq_false :
    isLastManager userId (lockActiveManagers db now) env = false ↔
      ∃ other, other ≠ userId ∧ EffectiveManager env db now other := by
  simp only [isLastManager, Bool.not_eq_false', List.any_eq_true, Bool.and_eq_true,
    decide_eq_true_eq, effective_iff_locked]
  constructor
  · rintro ⟨record, hmem, ⟨hne, hgrants⟩, hmanages⟩
    exact ⟨record.userId, hne, record, hmem, rfl, hgrants, hmanages⟩
  · rintro ⟨_, hne, record, hmem, rfl, hgrants, hmanages⟩
    exact ⟨record, hmem, ⟨hne, hgrants⟩, hmanages⟩

/-- A ban or a denial may end meanwhile; nothing else depends on the clock. -/
theorem EffectiveManager.later {later : Time} (h : EffectiveManager env db now userId)
    (hle : now ≤ later) : EffectiveManager env db later userId := by
  obtain ⟨hg, ⟨owner, howner, hcounts⟩, hdenied⟩ := h
  refine ⟨hg, ⟨owner, howner, ?_⟩, fun hdeny => hdenied (hdeny.earlier hle)⟩
  simp only [stillCountsAsManager, Bool.and_eq_true, Bool.not_eq_true'] at hcounts ⊢
  refine ⟨hcounts.1, ?_⟩
  have hfree := hcounts.2
  unfold banIsLive at hfree ⊢
  cases he : owner.banExpires with
  | none => rwa [he] at hfree
  | some expires =>
      simp only [he, Bool.and_eq_false_iff, decide_eq_false_iff_not] at hfree ⊢
      exact hfree.imp_right fun hnot hlt => hnot (Nat.lt_of_le_of_lt hle hlt)

theorem EffectiveManager.congr (h : EffectiveManager env db now userId)
    (hg : Grants db env userId .manager → Grants db' env userId .manager)
    (hu : ∀ owner, db.users.find? userId = some owner →
      stillCountsAsManager owner now = true →
      ∃ owner', db'.users.find? userId = some owner' ∧
        stillCountsAsManager owner' now = true)
    (hl : LiveOverride .deny db' userId now .staffManage →
      LiveOverride .deny db userId now .staffManage) :
    EffectiveManager env db' now userId := by
  obtain ⟨hgrants, ⟨owner, howner, hcounts⟩, hdenied⟩ := h
  exact ⟨hg hgrants, hu owner howner hcounts, fun hdeny => hdenied (hl hdeny)⟩

/-- Nobody but the target stops being an effective manager, and the target does
only if there is another. -/
def Replaces (env : StaffEnv) (db db' : StaffDb) (now : Time) (target : String) : Prop :=
  (∀ other, other ≠ target → EffectiveManager env db now other →
    EffectiveManager env db' now other) ∧
  (EffectiveManager env db now target → EffectiveManager env db' now target ∨
    ∃ other, other ≠ target ∧ EffectiveManager env db now other)

theorem Replaces.refl (env : StaffEnv) (db : StaffDb) (now : Time) (target : String) :
    Replaces env db db now target :=
  ⟨fun _ _ h => h, .inl⟩

theorem Replaces.exists {target : String} (h : Replaces env db db' now target)
    (hsome : ∃ userId, EffectiveManager env db now userId) :
    ∃ userId, EffectiveManager env db' now userId := by
  obtain ⟨hothers, htarget⟩ := h
  obtain ⟨userId, hmanager⟩ := hsome
  by_cases hid : userId = target
  · subst hid
    rcases htarget hmanager with hstill | ⟨other, hne, hother⟩
    · exact ⟨userId, hstill⟩
    · exact ⟨other, hothers other hne hother⟩
  · exact ⟨userId, hothers userId hid hmanager⟩

end Managers

/-! ## The staff operations -/

section Staff

variable {env : StaffEnv} {db db' : StaffDb} {now : Time} {input : StaffChange}

theorem assign_replaces {userId createdBy : String} {role : StaffRole}
    (hlast : Grants db env userId .manager →
      isLastManager userId (lockActiveManagers db now) env = false) :
    Replaces env db (assign db userId role createdBy now) now userId := by
  refine ⟨fun other hne h => h.congr (assign_frame hne).2 (fun owner ho hc => ⟨owner, ho, hc⟩) id,
    fun h => .inr (isLastManager_eq_false.1 (hlast h.1))⟩

theorem EffectiveManager.revoke {userId other : String}
    (h : EffectiveManager env db now other) (hne : other ≠ userId) :
    EffectiveManager env (Admin.revoke db userId now) now other :=
  h.congr (revoke_grants_frame hne).2 (fun owner ho hc => ⟨owner, ho, hc⟩)
    (revoke_live_frame hne).1

theorem revoke_replaces {userId : String}
    (hlast : Grants db env userId .manager →
      isLastManager userId (lockActiveManagers db now) env = false) :
    Replaces env db (Admin.revoke db userId now) now userId := by
  exact ⟨fun other hne h => h.revoke hne, fun h => .inr (isLastManager_eq_false.1 (hlast h.1))⟩

theorem setOverride_replaces {id : String} {change : OverrideChange}
    (h : setOverride env db now id input change = .ok db') :
    Replaces env db db' now input.targetUserId := by
  obtain ⟨hlisted, -, -, hlast, hreplace⟩ := setOverride_eq_ok h
  obtain ⟨hu, hm, -⟩ := replaceOverride_eq_some hreplace
  have husers : ∀ userId owner, db.users.find? userId = some owner →
      stillCountsAsManager owner now = true → ∃ owner',
        db'.users.find? userId = some owner' ∧ stillCountsAsManager owner' now = true :=
    fun userId owner ho hc => ⟨owner, by rw [hu]; exact ho, hc⟩
  constructor
  · intro other hne hother
    exact hother.congr (grants_congr hu hm).2 (husers other)
      (replaceOverride_frame hreplace hne).1
  · intro htarget
    have hfree : ¬ LiveOverride .deny db input.targetUserId now .staffManage := fun hdeny => by
      have hon := htarget.2.2 hdeny
      rw [hlisted] at hon
      cases hon
    by_cases hloses : change.effect = .deny ∧ change.permission = .staffManage
    · exact .inr (isLastManager_eq_false.1 (hlast hloses.1 hloses.2 htarget.1 hfree))
    · refine .inl (htarget.congr (grants_congr hu hm).2 (husers _) fun hdeny => ?_)
      rcases (replaceOverride_live hreplace _ _ _).1 hdeny with ⟨-, hold⟩ | ⟨hp, heffect, -⟩
      · exact hold
      · exact absurd ⟨heffect.symm, hp.symm⟩ hloses

theorem removeOverride_replaces {overrideId : String}
    (h : removeOverride env db now input overrideId = .ok db') :
    Replaces env db db' now input.targetUserId := by
  obtain ⟨-, removed, hrevoke, -⟩ := removeOverride_eq_ok h
  have hdb : db' = (revokeOverride db input.targetUserId overrideId now).1 := by rw [hrevoke]
  constructor
  · intro other hne hother
    subst hdb
    exact hother.congr id (fun owner ho hc => ⟨owner, ho, hc⟩) (revokeOverride_frame hne).1
  · intro htarget
    have hlive := (revokeOverride_live hrevoke .deny now .staffManage).1
    subst hdb
    exact .inl (htarget.congr id (fun owner ho hc => ⟨owner, ho, hc⟩) hlive)

theorem staff_replaces {op : StaffOperation} (h : op.run env db now input = .ok db') :
    Replaces env db db' now input.targetUserId := by
  cases op with
  | assignRole role expectedRole =>
      obtain ⟨-, -, ⟨rfl, -⟩ | ⟨rfl, -, hlast⟩⟩ := assignRole_eq_ok h
      · exact .refl env db' now _
      · exact assign_replaces hlast
  | revoke =>
      obtain ⟨-, rfl, hlast⟩ := revokeStaff_eq_ok h
      exact revoke_replaces hlast
  | setOverride id change => exact setOverride_replaces h
  | removeOverride overrideId => exact removeOverride_replaces h

end Staff

/-! ## Changes of one account -/

section Account

variable {env : StaffEnv} {db db' : StaffDb} {now : Time} {userId : String}

/-- What a change of one user's row can do to the managers is up to that row. -/
theorem updateUser_replaces {f : UserRow → UserRow} {hf : ∀ u, Keyed.key (f u) = Keyed.key u}
    (hlast : EffectiveManager env db now userId →
      EffectiveManager env (updateUser db userId f hf) now userId ∨
        ∃ other, other ≠ userId ∧ EffectiveManager env db now other) :
    Replaces env db (updateUser db userId f hf) now userId := by
  refine ⟨fun other hne hother => hother.congr ?_ ?_ id, hlast⟩
  · refine (grants_of_users ?_ ?_).2
    · rw [find?_updateUser hf, Option.isSome_map]
    · rfl
  · intro owner ho hc
    have hid : owner.id = other := (Table.find?_eq_some.1 ho).2
    have hnot : ¬ owner.id = userId := hid ▸ hne
    exact ⟨owner, by rw [find?_updateUser hf, ho, Option.map_some, if_neg hnot], hc⟩

theorem moderateBan_replaces {input : StaffChange} {expiresIn : Option Nat}
    (h : moderateBan env db now input expiresIn = .ok db') :
    Replaces env db db' now input.targetUserId := by
  obtain ⟨hlast, expiresAt, rfl⟩ := moderateBan_eq_ok h
  exact updateUser_replaces fun htarget =>
    .inr (isLastManager_eq_false.1 (hlast htarget.1))

theorem Grants.findActive {role : StaffRole} (h : Grants db env userId role) (now : Time) :
    ∃ row, findActive db userId now = some row ∧ row.role = role ∧
      grantsStaffAccess row.userId row.source env = true := by
  obtain ⟨row, hrow, hrole⟩ := h.grantingRow now
  obtain ⟨hactive, hgrants⟩ := Option.filter_eq_some_iff.1 hrow
  exact ⟨row, hactive, hrole, hgrants⟩

theorem refusedLastManager_eq_none (h : refusedLastManager env db now userId = none)
    (hlisted : env.isListed userId = false) (hg : Grants db env userId .manager) :
    isLastManager userId (lockActiveManagers db now) env = false := by
  obtain ⟨row, hrow, hrole, hgrants⟩ := Grants.findActive hg now
  unfold refusedLastManager at h
  simp only [hlisted, hrow, Option.any_some, hrole, hgrants, decide_true, Bool.and_self,
    Bool.not_true, Bool.false_eq_true, if_false] at h
  split at h
  · cases h
  · next hlast => simpa using hlast

theorem requestTransaction_replaces {until_ : Time}
    (hspares : env.isListed userId = true → EffectiveManager env db now userId →
      ∃ other, other ≠ userId ∧ EffectiveManager env db now other)
    (h : requestTransaction env db now userId until_ = .ok db') :
    Replaces env db db' now userId := by
  unfold requestTransaction at h
  split at h
  · cases h
  · next hrefused =>
      cases h
      refine updateUser_replaces fun htarget => .inr ?_
      cases hlisted : env.isListed userId with
      | true => exact hspares hlisted htarget
      | false =>
          exact isLastManager_eq_false.1 (refusedLastManager_eq_none hrefused hlisted htarget.1)

theorem clearPendingDeletion_replaces :
    Replaces env db (clearPendingDeletion db userId) now userId := by
  refine updateUser_replaces fun htarget => .inl (htarget.congr ?_ ?_ id)
  · refine (grants_of_users ?_ ?_).2
    · rw [find?_updateUser (key_pendingRow none), Option.isSome_map]
    · rfl
  · intro owner ho hc
    refine ⟨pendingRow none owner, ?_, ?_⟩
    · have hid : owner.id = userId := (Table.find?_eq_some.1 ho).2
      rw [find?_updateUser (key_pendingRow none), ho, Option.map_some, if_pos hid]
    · simp only [stillCountsAsManager, Bool.and_eq_true] at hc ⊢
      exact ⟨⟨hc.1.1, by simp [pendingRow]⟩, hc.2⟩

theorem find?_executeWipe (other : String) :
    (executeWipe db userId now).1.users.find? other =
      (db.users.find? other).map fun u => if wipes userId u then wipedRow now u else u := by
  rw [executeWipe, Table.find?_update]

theorem executeWipe_effective (hne : other ≠ userId)
    (h : EffectiveManager env db now other) :
    EffectiveManager env (executeWipe db userId now).1 now other := by
  refine h.congr ?_ ?_ id
  · refine (grants_of_users ?_ ?_).2
    · rw [find?_executeWipe, Option.isSome_map]
    · rfl
  · intro owner ho hc
    have hid : owner.id = other := (Table.find?_eq_some.1 ho).2
    have hnot : ¬ wipes userId owner = true := by simp [wipes, hid, hne]
    exact ⟨owner, by rw [find?_executeWipe, ho, Option.map_some, if_neg hnot], hc⟩

/-- Nobody manages the staff while their own deletion is pending, so a wipe of
such an account takes no manager away. -/
theorem wipeTransaction_replaces
    (hpending : ∀ user, db.users.find? userId = some user → user.deletedAt = none →
      user.pendingDeletionUntil ≠ none) :
    Replaces env db (wipeTransaction db userId now) now userId := by
  constructor
  · intro other hne hother
    have hwiped := executeWipe_effective hne hother
    simp only [wipeTransaction, revokeStaffAccess]
    split
    · exact hwiped
    · split
      · exact hwiped.revoke hne
      · exact hwiped
  · rintro ⟨-, ⟨owner, howner, hcounts⟩, -⟩
    simp only [stillCountsAsManager, Bool.and_eq_true, decide_eq_true_eq] at hcounts
    exact absurd hcounts.1.2 (hpending owner howner hcounts.1.1)

end Account

/-! ## Any run -/

/-- The step is none of the two that may take the last manager away. -/
def Spares (env : StaffEnv) (s : AccountState) : AccountEvent → Prop
  | .commitRequest i =>
      ∀ userId until_, s.requests[i]? = some (userId, until_) →
        env.isListed userId = true → EffectiveManager env s.db s.clock userId →
        ∃ other, other ≠ userId ∧ EffectiveManager env s.db s.clock other
  | .wipe i =>
      ∀ sweep userId read, s.sweeps[i]? = some sweep → sweep.reading = some (userId, read) →
        ∀ user, s.db.users.find? userId = some user → user.deletedAt = none →
          user.pendingDeletionUntil ≠ none
  | _ => True

def HasManager (env : StaffEnv) (s : AccountState) : Prop :=
  ∃ userId, EffectiveManager env s.db s.clock userId

section Run

variable {env : StaffEnv} {settings : RgpdSettings} {s t : AccountState}

/-- A step leaves the database, or replaces the managers of one target in it,
and only `wait` moves the clock. -/
theorem accountStep_replaces {e : AccountEvent} (hspares : Spares env s e)
    (h : accountStep env settings s e = some t) :
    s.clock ≤ t.clock ∧ ∃ target, Replaces env s.db t.db s.clock target := by
  have hrefl : ∃ target, Replaces env s.db s.db s.clock target := ⟨"", .refl ..⟩
  have hcommit : ∀ {s' : AccountState} {out : Except AppError StaffDb} {target : String},
      s'.clock = s.clock → s'.db = s.db →
      (∀ db', out = .ok db' → Replaces env s.db db' s.clock target) →
      s.clock ≤ (s'.commit out).clock ∧
        ∃ target, Replaces env s.db (s'.commit out).db s.clock target := by
    intro s' out target hclock hdb hok
    cases out with
    | ok db' => exact ⟨hclock.ge, target, hok db' rfl⟩
    | error error => exact ⟨hclock.ge, hdb ▸ hrefl⟩
  cases e with
  | staff input op =>
      cases h
      exact hcommit rfl rfl fun db' hok => staff_replaces hok
  | ban input expiresIn =>
      cases h
      exact hcommit rfl rfl fun db' hok => moderateBan_replaces hok
  | beginRequest userId c =>
      simp only [accountStep] at h
      split at h <;> cases h
      · exact ⟨Nat.le_refl _, hrefl⟩
      · exact ⟨Nat.le_refl _, hrefl⟩
  | commitRequest i =>
      obtain ⟨⟨userId, until_⟩, hi, h⟩ := Option.bind_eq_some_iff.1 h
      cases h
      exact hcommit rfl rfl fun db' hok =>
        requestTransaction_replaces (hspares userId until_ hi) hok
  | beginCancel userId =>
      simp only [accountStep] at h
      split at h <;> cases h
      · exact ⟨Nat.le_refl _, hrefl⟩
      · exact ⟨Nat.le_refl _, hrefl⟩
  | commitCancel i =>
      obtain ⟨userId, hi, h⟩ := Option.bind_eq_some_iff.1 h
      cases h
      exact ⟨Nat.le_refl _, userId, clearPendingDeletion_replaces⟩
  | startSweep chosen limit =>
      simp only [accountStep] at h
      split at h <;> cases h
      exact ⟨Nat.le_refl _, hrefl⟩
  | readState i =>
      obtain ⟨sweep, hi, h⟩ := Option.bind_eq_some_iff.1 h
      split at h <;> cases h
      exact ⟨Nat.le_refl _, hrefl⟩
  | wipe i =>
      obtain ⟨sweep, hi, h⟩ := Option.bind_eq_some_iff.1 h
      obtain ⟨⟨userId, read⟩, hreading, h⟩ := Option.bind_eq_some_iff.1 h
      cases h
      exact ⟨Nat.le_refl _, userId,
        wipeTransaction_replaces (hspares sweep userId read hi hreading)⟩
  | dropWipe i =>
      obtain ⟨sweep, hi, h⟩ := Option.bind_eq_some_iff.1 h
      cases h
      exact ⟨Nat.le_refl _, hrefl⟩
  | wait n =>
      cases h
      exact ⟨Nat.le_add_right _ _, hrefl⟩

/-- Somebody manages the staff effectively, all along every run whose steps
spare the last manager. -/
theorem manager_remains {es : List AccountEvent} (hstart : HasManager env s)
    (hspares : Meets (accountStep env settings) (Spares env) s es)
    (h : exec (accountStep env settings) s es = some t) : HasManager env t := by
  refine runs_inv_meets (fun s e s' hsome hmeets hstep => ?_) hstart hspares h
  obtain ⟨hle, target, hreplaces⟩ := accountStep_replaces hmeets hstep
  obtain ⟨userId, hmanager⟩ := hreplaces.exists hsome
  exact ⟨userId, hmanager.later hle⟩

end Run

/-! ## A listed manager leaves -/

def activeUser (id : String) : UserRow := ⟨id, none, none, none, none, none⟩

def managerRow (userId : String) (source : StaffSource) : StaffMemberRow :=
  ⟨userId, StaffRole.manager.text, source, none, 0, none⟩

/-- `root` is listed and came from the environment. -/
def rootOnly : StaffDb where
  users := ⟨[activeUser "root"], by decide +kernel⟩
  members := ⟨[managerRow "root" .env], by decide +kernel⟩
  overrides := Table.empty

def rootAndBoss : StaffDb where
  users := ⟨[activeUser "root", activeUser "boss"], by decide +kernel⟩
  members := ⟨[managerRow "root" .env, managerRow "boss" .console], by decide +kernel⟩
  overrides := Table.empty

def rootListed : StaffEnv := ⟨["root"], false⟩

def accountsAt (db : StaffDb) : AccountState := ⟨0, db, [], [], []⟩

def rootLeaves : List AccountEvent :=
  [.beginRequest "root" ⟨[], none, some true⟩, .commitRequest 0]

theorem effective_of_locked {env : StaffEnv} {db : StaffDb} {now : Time}
    (h : isLastManager "" (lockActiveManagers db now) env = false) :
    ∃ userId, EffectiveManager env db now userId := by
  obtain ⟨userId, -, hmanager⟩ := isLastManager_eq_false.1 h
  exact ⟨userId, hmanager⟩

theorem listed_last_manager_leaves :
    ¬ ∀ (env : StaffEnv) (settings : RgpdSettings) (s t : AccountState)
      (es : List AccountEvent), HasManager env s →
      exec (accountStep env settings) s es = some t → HasManager env t := by
  intro hall
  obtain ⟨userId, hmanager⟩ := hall rootListed ⟨30⟩ (accountsAt rootOnly) _ rootLeaves
    (effective_of_locked (by decide)) rfl
  obtain ⟨record, hmem, -⟩ := effective_iff_locked.1 hmanager
  exact absurd (List.isEmpty_eq_false_iff_exists_mem.2 ⟨record, hmem⟩) (by decide)

def rootLeavesAndIsWiped : List AccountEvent :=
  rootLeaves ++ [.wait (day * 30), .startSweep ["root"] 10, .readState 0, .wipe 0]

theorem manager_remains_boss :
    ∃ t, exec (accountStep rootListed ⟨30⟩) (accountsAt rootAndBoss) rootLeavesAndIsWiped =
        some t ∧ HasManager rootListed t := by
  have hmeets : Meets (accountStep rootListed ⟨30⟩) (Spares rootListed)
      (accountsAt rootAndBoss) rootLeavesAndIsWiped := by
    refine meets_cons rfl trivial (meets_cons rfl ?_ (meets_cons rfl trivial
      (meets_cons rfl trivial (meets_cons rfl trivial (meets_cons rfl ?_ trivial)))))
    · intro userId until_ hi _ _
      cases hi
      exact isLastManager_eq_false.1 (by decide)
    · intro sweep userId read hi hreading user huser _
      cases hi
      cases hreading
      cases huser
      exact nofun
  exact ⟨_, rfl, manager_remains (effective_of_locked (by decide)) hmeets rfl⟩

end CleanStack.Rgpd
