import CleanStack.Admin.StaffService

/-!
# The facts staff access rests on

What a person may do, and whether they manage the staff, depends on two kinds
of fact about the rows: the role their staff row grants (`Grants`), and which
permissions a live override grants or denies them (`LiveOverride`). Each
statement of the store gets lemmas that say what it does to these facts, for
the person it is about and for everybody else; later proofs compare the facts
before and after and look at no row.
-/

namespace CleanStack.Admin

open CleanStack.Lib CleanStack.Drizzle CleanStack.AccessControl

/-! ## The facts a permission rests on -/

/-- The staff row of the person grants the role. -/
def Grants (db : StaffDb) (env : StaffEnv) (userId : String) (role : StaffRole) : Prop :=
  ∃ m, db.members.find? userId = some m ∧ m.revokedAt = none ∧ m.role = role.text ∧
    grantsStaffAccess userId m.source env = true ∧ (db.users.find? userId).isSome = true

def isLiveRow (now : Time) (r : OverrideRow) : Bool :=
  match r.expiresAt with
  | none => true
  | some expiresAt => now < expiresAt

/-- An unrevoked override of the person with this effect on `p` is live. -/
def LiveOverride (effect : Effect) (db : StaffDb) (userId : String) (now : Time)
    (p : StaffPermission) : Prop :=
  ∃ r ∈ db.overrides.rows, r.userId = userId ∧ r.revokedAt = none ∧
    r.permission = p.text ∧ r.effect = effect ∧ isLiveRow now r = true

theorem LiveOverride.earlier {effect : Effect} {db : StaffDb} {userId : String}
    {t later : Time} {p : StaffPermission} (h : LiveOverride effect db userId later p)
    (hle : t ≤ later) : LiveOverride effect db userId t p := by
  obtain ⟨r, hr, hu, hrev, hperm, heffect, hlive⟩ := h
  refine ⟨r, hr, hu, hrev, hperm, heffect, ?_⟩
  unfold isLiveRow at hlive ⊢
  cases he : r.expiresAt with
  | none => rfl
  | some expiresAt =>
      rw [he] at hlive
      have hlt : later < expiresAt := of_decide_eq_true hlive
      exact decide_eq_true (Nat.lt_of_le_of_lt hle hlt)

theorem StaffRole.text_injective {a b : StaffRole} (h : a.text = b.text) : a = b := by
  have ha := toStaffRole?_text a
  rw [h, toStaffRole?_text b] at ha
  exact (Option.some.inj ha).symm

theorem StaffPermission.text_injective {a b : StaffPermission} (h : a.text = b.text) :
    a = b := by
  have ha := toStaffPermission?_text a
  rw [h, toStaffPermission?_text b] at ha
  exact (Option.some.inj ha).symm

theorem Grants.unique {db : StaffDb} {env : StaffEnv} {userId : String}
    {role role' : StaffRole} (h : Grants db env userId role)
    (h' : Grants db env userId role') : role = role' := by
  obtain ⟨m, hm, -, hrole, -, -⟩ := h
  obtain ⟨m', hm', -, hrole', -, -⟩ := h'
  rw [hm] at hm'
  cases hm'
  exact StaffRole.text_injective (hrole.symm.trans hrole')

theorem hasLive_overridesOf {effect : Effect} {db : StaffDb} {userId : String}
    {now : Time} {p : StaffPermission} :
    HasLive effect (overridesOf db userId) now p ↔
      LiveOverride effect db userId now p := by
  constructor
  · rintro ⟨o, ho, hlive, heffect, hp⟩
    obtain ⟨r, hr, hof⟩ := List.mem_filterMap.1 ho
    obtain ⟨hmem, hwhere⟩ := List.mem_filter.1 hr
    simp only [Bool.and_eq_true, decide_eq_true_eq] at hwhere
    obtain ⟨permission, hperm, rfl⟩ := Option.map_eq_some_iff.1 hof
    cases hp
    exact ⟨r, hmem, hwhere.1, hwhere.2, toStaffPermission?_eq_some.1 hperm, heffect, hlive⟩
  · rintro ⟨r, hmem, hu, hrev, hperm, heffect, hlive⟩
    refine ⟨⟨p, r.effect, r.expiresAt⟩, List.mem_filterMap.2 ⟨r, ?_, ?_⟩, hlive, heffect, rfl⟩
    · exact List.mem_filter.2 ⟨hmem, by simp [hu, hrev]⟩
    · rw [overrideOf, toStaffPermission?_eq_some.2 hperm]
      rfl

theorem findActive_eq_some {db : StaffDb} {userId : String} {now : Time}
    {row : StaffRecord} (h : findActive db userId now = some row) :
    row.userId = userId ∧ row.overrides = overridesOf db userId ∧
      ∃ m, db.members.find? userId = some m ∧ m.revokedAt = none ∧
        m.role = row.role.text ∧ m.source = row.source ∧
        (db.users.find? userId).isSome = true := by
  obtain ⟨m, hm, h⟩ := Option.bind_eq_some_iff.1 h
  obtain ⟨user, huser, h⟩ := Option.bind_eq_some_iff.1 h
  obtain ⟨role, hrole, h⟩ := Option.bind_eq_some_iff.1 h
  obtain ⟨hm, hrev⟩ := Option.filter_eq_some_iff.1 hm
  cases h
  exact ⟨rfl, rfl, m, hm, of_decide_eq_true hrev, toStaffRole?_eq_some.1 hrole, rfl,
    by rw [huser]; rfl⟩

theorem grantingRow_eq_some {db : StaffDb} {env : StaffEnv} {userId : String}
    {now : Time} {row : StaffRecord} (h : grantingRow env db userId now = some row) :
    Grants db env userId row.role ∧ row.overrides = overridesOf db userId := by
  obtain ⟨hactive, hgrants⟩ := Option.filter_eq_some_iff.1 h
  obtain ⟨hid, hover, m, hm, hrev, hrole, hsource, huser⟩ := findActive_eq_some hactive
  rw [hid, ← hsource] at hgrants
  exact ⟨⟨m, hm, hrev, hrole, hgrants, huser⟩, hover⟩

theorem Grants.grantingRow {db : StaffDb} {env : StaffEnv} {userId : String}
    {role : StaffRole} (h : Grants db env userId role) (now : Time) :
    ∃ row, grantingRow env db userId now = some row ∧ row.role = role := by
  obtain ⟨m, hm, hrev, hrole, hgrants, huser⟩ := h
  obtain ⟨user, huser⟩ := Option.isSome_iff_exists.1 huser
  refine ⟨⟨userId, role, m.source, banIsLive user.banned user.banExpires now,
    overridesOf db userId⟩, Option.filter_eq_some_iff.2 ⟨?_, hgrants⟩, rfl⟩
  have hparsed : toStaffRole? m.role = some role := toStaffRole?_eq_some.2 hrole
  simp [findActive, hm, hrev, huser, hparsed, Option.filter]

theorem grantingRow_eq_none {db : StaffDb} {env : StaffEnv} {userId : String}
    {now : Time} (h : grantingRow env db userId now = none) (role : StaffRole) :
    ¬ Grants db env userId role := by
  intro hg
  obtain ⟨row, hrow, -⟩ := hg.grantingRow now
  rw [h] at hrow
  cases hrow

theorem mem_permissionsAt {db : StaffDb} {env : StaffEnv} {userId : String} {now : Time}
    {p : StaffPermission} (hlisted : env.isListed userId = false) :
    p ∈ permissionsAt db env userId now ↔ ∃ role, Grants db env userId role ∧
      (p ∈ permissionsOfRole role ∨ LiveOverride .grant db userId now p) ∧
        ¬ LiveOverride .deny db userId now p := by
  have hrow : p ∈ permissionsAt db env userId now ↔
      ∃ row, grantingRow env db userId now = some row ∧ p ∈ permissionsOfRecord row now := by
    unfold permissionsAt
    cases huser : db.users.find? userId with
    | none =>
        refine iff_of_false (fun h => nomatch h) ?_
        rintro ⟨row, hrow, -⟩
        obtain ⟨⟨m, -, -, -, -, hsome⟩, -⟩ := grantingRow_eq_some hrow
        rw [huser] at hsome
        cases hsome
    | some user =>
        have hid : user.id = userId := (Table.find?_eq_some.1 huser).2
        simp only [staffAccessOf, hid, hlisted]
        rw [← grantingRow]
        cases grantingRow env db userId now with
        | none => simp
        | some row => simp
  rw [hrow]
  constructor
  · rintro ⟨row, hrow, hp⟩
    obtain ⟨hg, hover⟩ := grantingRow_eq_some hrow
    rw [permissionsOfRecord, mem_effectivePermissions, hover, hasLive_overridesOf,
      hasLive_overridesOf] at hp
    exact ⟨row.role, hg, hp⟩
  · rintro ⟨role, hg, hp⟩
    obtain ⟨row, hrow, hrole⟩ := hg.grantingRow now
    refine ⟨row, hrow, ?_⟩
    rw [permissionsOfRecord, mem_effectivePermissions, (grantingRow_eq_some hrow).2,
      hasLive_overridesOf, hasLive_overridesOf, hrole]
    exact hp

/-! ## What the statements do to the facts -/

theorem find?_assign (db : StaffDb) (userId : String) (role : StaffRole)
    (createdBy : String) (now : Time) :
    ∃ m, (assign db userId role createdBy now).members.find? userId = some m ∧
      m.role = role.text ∧ m.source = .console ∧ m.revokedAt = none := by
  refine ⟨_, (Table.find?_upsert userId).trans (if_pos rfl), ?_⟩
  cases db.members.find? userId <;> exact ⟨rfl, rfl, rfl⟩

theorem assign_grants {db : StaffDb} {env : StaffEnv} {userId createdBy : String}
    {role : StaffRole} {now : Time} {role' : StaffRole}
    (h : Grants (assign db userId role createdBy now) env userId role') : role' = role := by
  obtain ⟨m, hm, -, hrole, -⟩ := h
  obtain ⟨m', hm', hrole', -⟩ := find?_assign db userId role createdBy now
  rw [hm] at hm'
  cases hm'
  exact StaffRole.text_injective (hrole.symm.trans hrole')

theorem grants_assign {db : StaffDb} (env : StaffEnv) {userId createdBy : String}
    {role : StaffRole} {now : Time} (huser : (db.users.find? userId).isSome = true) :
    Grants (assign db userId role createdBy now) env userId role := by
  obtain ⟨m, hm, hrole, hsource, hrev⟩ := find?_assign db userId role createdBy now
  exact ⟨m, hm, hrev, hrole, by rw [hsource]; rfl, huser⟩

theorem revoke_grants {db : StaffDb} {env : StaffEnv} {userId : String} {now : Time}
    {role : StaffRole} : ¬ Grants (revoke db userId now) env userId role := by
  rintro ⟨m, hm, hrev, -⟩
  simp only [revoke, Table.find?_update] at hm
  obtain ⟨m₀, hm₀, rfl⟩ := Option.map_eq_some_iff.1 hm
  have hid : m₀.userId = userId := (Table.find?_eq_some.1 hm₀).2
  simp [hid, revokeRow] at hrev

theorem replaceOverride_eq_some {db db' : StaffDb} {id userId createdBy : String}
    {permission : StaffPermission} {effect : Effect} {expiresAt : Option Time} {now : Time}
    (h : replaceOverride db id userId permission effect expiresAt createdBy now = some db') :
    db'.users = db.users ∧ db'.members = db.members ∧
      ∀ r', r' ∈ db'.overrides.rows ↔
        r' = ⟨id, userId, permission.text, effect, some createdBy, expiresAt, none⟩ ∨
        ∃ r ∈ db.overrides.rows, r' =
          if r.userId = userId && r.permission = permission.text && r.revokedAt = none then
            revokeOverrideRow now r
          else r := by
  obtain ⟨overrides, hins, h⟩ := Option.bind_eq_some_iff.1 h
  cases h
  refine ⟨rfl, rfl, fun r' => ?_⟩
  rw [Table.mem_insert hins, Table.mem_update]

/-- A replaced override leaves the other permissions as they were, and is the
only live override of its own. -/
theorem replaceOverride_live {db db' : StaffDb} {id userId createdBy : String}
    {permission : StaffPermission} {effect : Effect} {expiresAt : Option Time} {now : Time}
    (h : replaceOverride db id userId permission effect expiresAt createdBy now = some db')
    (effect' : Effect) (t : Time) (p : StaffPermission) :
    LiveOverride effect' db' userId t p ↔
      (p ≠ permission ∧ LiveOverride effect' db userId t p) ∨
      (p = permission ∧ effect' = effect ∧
        isLiveRow t ⟨id, userId, permission.text, effect, some createdBy, expiresAt, none⟩) := by
  obtain ⟨-, -, hrows⟩ := replaceOverride_eq_some h
  constructor
  · rintro ⟨r', hr', hu, hrev, hperm, heffect, hlive⟩
    rcases (hrows r').1 hr' with rfl | ⟨r, hr, rfl⟩
    · exact .inr ⟨(StaffPermission.text_injective hperm).symm, heffect.symm, hlive⟩
    · split at hrev
      · cases hrev
      · next hwhere =>
          rw [if_neg hwhere] at hu hperm heffect hlive
          refine .inl ⟨fun hp => hwhere ?_, r, hr, hu, hrev, hperm, heffect, hlive⟩
          simp [hu, hperm, hrev, hp]
  · rintro (⟨hne, r, hr, hu, hrev, hperm, heffect, hlive⟩ | ⟨rfl, rfl, hlive⟩)
    · have hwhere : ¬ (r.userId = userId && r.permission = permission.text &&
          r.revokedAt = none) = true := by
        simp only [Bool.and_eq_true, decide_eq_true_eq, not_and]
        rintro ⟨-, hp⟩
        exact absurd (StaffPermission.text_injective (hperm.symm.trans hp)) hne
      exact ⟨r, (hrows r).2 (.inr ⟨r, hr, (if_neg hwhere).symm⟩), hu, hrev, hperm,
        heffect, hlive⟩
    · exact ⟨_, (hrows _).2 (.inl rfl), rfl, rfl, rfl, rfl, hlive⟩

theorem revokeOverride_live {db : StaffDb} {userId overrideId : String} {now : Time}
    {removed : StaffPermissionOverride} {db' : StaffDb}
    (h : revokeOverride db userId overrideId now = (db', some removed)) (effect : Effect)
    (t : Time) (p : StaffPermission) :
    (LiveOverride effect db' userId t p → LiveOverride effect db userId t p) ∧
    (LiveOverride effect db userId t p → LiveOverride effect db' userId t p ∨
      (p = removed.permission ∧ effect = removed.effect)) := by
  simp only [revokeOverride, Prod.mk.injEq] at h
  obtain ⟨rfl, hremoved⟩ := h
  obtain ⟨r₀, hr₀, hof⟩ := Option.bind_eq_some_iff.1 hremoved
  obtain ⟨permission, hperm₀, rfl⟩ := Option.map_eq_some_iff.1 hof
  have hmem₀ := List.mem_of_find?_eq_some hr₀
  have hwhere₀ := List.find?_some hr₀
  simp only [Bool.and_eq_true, decide_eq_true_eq] at hwhere₀
  constructor
  · rintro ⟨r', hr', hu, hrev, hperm, heffect, hlive⟩
    obtain ⟨r, hr, rfl⟩ := (Table.mem_update (key_revokeOverrideRow now)).1 hr'
    split at hrev
    · cases hrev
    · next hwhere =>
        rw [if_neg hwhere] at hu hperm heffect hlive
        exact ⟨r, hr, hu, hrev, hperm, heffect, hlive⟩
  · rintro ⟨r, hr, hu, hrev, hperm, heffect, hlive⟩
    by_cases hid : r.id = overrideId
    · have heq : r = r₀ := Table.eq_of_key hr hmem₀ (hid.trans hwhere₀.1.1.symm)
      subst heq
      rw [hperm, toStaffPermission?_text] at hperm₀
      cases hperm₀
      exact .inr ⟨rfl, heffect.symm⟩
    · have hwhere : ¬ (r.id = overrideId && r.userId = userId && r.revokedAt = none) = true := by
        simp [hid]
      exact .inl ⟨r, (Table.mem_update (key_revokeOverrideRow now)).2
        ⟨r, hr, (if_neg hwhere).symm⟩, hu, hrev, hperm, heffect, hlive⟩

/-! ## What they leave alone -/

section Frame

variable {db db' : StaffDb} {env : StaffEnv} {userId other : String} {now t : Time}
  {role : StaffRole} {effect : Effect} {p : StaffPermission}

theorem grants_congr (hu : db'.users = db.users) (hm : db'.members = db.members) :
    Grants db' env userId role ↔ Grants db env userId role := by
  rw [Grants, Grants, hu, hm]

theorem grants_of_members (hm : db'.members.find? other = db.members.find? other)
    (hu : db'.users = db.users) :
    Grants db' env other role ↔ Grants db env other role := by
  rw [Grants, Grants, hm, hu]

/-- Revoking some overrides of one person touches nobody else's. -/
theorem live_update_frame {chosen : OverrideRow → Bool}
    (hchosen : ∀ r, chosen r = true → r.userId = userId)
    (hrows : db'.overrides = db.overrides.update chosen (revokeOverrideRow now)
      (key_revokeOverrideRow now)) (hne : other ≠ userId) :
    LiveOverride effect db' other t p ↔ LiveOverride effect db other t p := by
  rw [LiveOverride, LiveOverride, hrows]
  constructor
  · rintro ⟨r', hr', hu, hrest⟩
    obtain ⟨r, hr, rfl⟩ := (Table.mem_update (key_revokeOverrideRow now)).1 hr'
    by_cases hc : chosen r = true
    · rw [if_pos hc] at hu
      exact absurd (hu.symm.trans (hchosen r hc)) hne
    · rw [if_neg hc] at hu hrest
      exact ⟨r, hr, hu, hrest⟩
  · rintro ⟨r, hr, hu, hrest⟩
    have hc : ¬ chosen r = true := fun hc => hne (hu.symm.trans (hchosen r hc))
    exact ⟨r, (Table.mem_update (key_revokeOverrideRow now)).2 ⟨r, hr, (if_neg hc).symm⟩,
      hu, hrest⟩

theorem assign_frame {createdBy : String} (hne : other ≠ userId) :
    Grants (assign db userId role createdBy now) env other .manager ↔
      Grants db env other .manager := by
  refine grants_of_members ?_ rfl
  rw [assign, Table.find?_upsert]
  exact if_neg (Ne.symm hne)

theorem revoke_grants_frame (hne : other ≠ userId) :
    Grants (revoke db userId now) env other role ↔ Grants db env other role := by
  refine grants_of_members ?_ rfl
  rw [revoke, Table.find?_update]
  cases hm : db.members.find? other with
  | none => rfl
  | some m =>
      have hid : m.userId = other := (Table.find?_eq_some.1 hm).2
      have hnot : ¬ m.userId = userId := hid ▸ hne
      simp [hnot]

theorem revoke_live_frame (hne : other ≠ userId) :
    LiveOverride effect (revoke db userId now) other t p ↔
      LiveOverride effect db other t p := by
  refine live_update_frame (fun r hr => ?_) rfl hne
  simp only [Bool.and_eq_true, decide_eq_true_eq] at hr
  exact hr.1

theorem replaceOverride_frame {id createdBy : String} {permission : StaffPermission}
    {effect' : Effect} {expiresAt : Option Time}
    (h : replaceOverride db id userId permission effect' expiresAt createdBy now = some db')
    (hne : other ≠ userId) :
    LiveOverride effect db' other t p ↔ LiveOverride effect db other t p := by
  obtain ⟨overrides, hins, h⟩ := Option.bind_eq_some_iff.1 h
  cases h
  have hrevoked : LiveOverride effect { db with
      overrides := db.overrides.update
        (fun r => r.userId = userId && r.permission = permission.text && r.revokedAt = none)
        (revokeOverrideRow now) (key_revokeOverrideRow now) } other t p ↔
      LiveOverride effect db other t p := by
    refine live_update_frame (fun r hr => ?_) rfl hne
    simp only [Bool.and_eq_true, decide_eq_true_eq] at hr
    exact hr.1.1
  rw [← hrevoked]
  constructor
  · rintro ⟨r, hr, hu, hrest⟩
    rcases (Table.mem_insert hins).1 hr with rfl | hr
    · exact absurd hu.symm hne
    · exact ⟨r, hr, hu, hrest⟩
  · rintro ⟨r, hr, hrest⟩
    exact ⟨r, (Table.mem_insert hins).2 (.inr hr), hrest⟩

theorem revokeOverride_frame {overrideId : String} (hne : other ≠ userId) :
    LiveOverride effect (revokeOverride db userId overrideId now).1 other t p ↔
      LiveOverride effect db other t p := by
  refine live_update_frame (fun r hr => ?_) rfl hne
  simp only [Bool.and_eq_true, decide_eq_true_eq] at hr
  exact hr.1.2

theorem find?_updateUser {f : UserRow → UserRow}
    (hf : ∀ u, Keyed.key (f u) = Keyed.key u) (other : String) :
    (updateUser db userId f hf).users.find? other =
      (db.users.find? other).map fun u => if u.id = userId then f u else u := by
  rw [updateUser, Table.find?_update]
  simp only [decide_eq_true_eq]

theorem grants_of_users (hu : (db'.users.find? userId).isSome = (db.users.find? userId).isSome)
    (hm : db'.members = db.members) :
    Grants db' env userId role ↔ Grants db env userId role := by
  rw [Grants, Grants, hu, hm]

end Frame

/-! ## What a successful operation has checked and done -/

section Operation

variable {env : StaffEnv} {db db' : StaffDb} {now : Time} {input : StaffChange}

theorem refusedChange_eq_none (h : refusedChange env input = none) :
    env.isListed input.targetUserId = false := by
  unfold refusedChange at h
  split at h
  · cases h
  · split at h
    · cases h
    · next hlisted => simpa using hlisted

theorem refusedRoleGrant_eq_none {role : StaffRole}
    (h : refusedRoleGrant env input role = none) :
    env.isListed input.targetUserId = false ∧
      ∀ p ∈ permissionsOfRole role, p ∈ input.actorPermissions := by
  unfold refusedRoleGrant at h
  split at h
  · cases h
  · next hchange =>
      split at h
      · cases h
      · next hany =>
          refine ⟨refusedChange_eq_none hchange, fun p hp => ?_⟩
          by_contra hnot
          exact hany (List.any_eq_true.2 ⟨p, hp, by simpa using hnot⟩)

/-- A role change changes nothing, or assigns a role within the actor's
permissions, and takes no manager's role without another manager. -/
theorem assignRole_eq_ok {role : StaffRole} {expectedRole : Option (Option StaffRole)}
    (h : assignRole env db now input role expectedRole = .ok db') :
    env.isListed input.targetUserId = false ∧
      (∀ p ∈ permissionsOfRole role, p ∈ input.actorPermissions) ∧
      ((db' = db ∧ Grants db env input.targetUserId role) ∨
        (db' = assign db input.targetUserId role input.actorUserId now ∧
          (db.users.find? input.targetUserId).isSome = true ∧
          (Grants db env input.targetUserId .manager →
            isLastManager input.targetUserId (lockActiveManagers db now) env = false))) := by
  unfold assignRole at h
  split at h
  · cases h
  · next hrefused =>
      obtain ⟨hlisted, hheld⟩ := refusedRoleGrant_eq_none hrefused
      refine ⟨hlisted, hheld, ?_⟩
      dsimp only at h
      split at h
      · cases h
      · split at h
        · next hnone =>
            unfold add at h
            split at h
            · cases h
            · next huser =>
                cases h
                refine .inr ⟨rfl, by simpa [Option.isSome_iff_ne_none] using huser,
                  fun hg => absurd hg (grantingRow_eq_none hnone .manager)⟩
        · next row hrow =>
            obtain ⟨hgrants, -⟩ := grantingRow_eq_some hrow
            split at h
            · next hrole =>
                cases h
                exact .inl ⟨rfl, hrole ▸ hgrants⟩
            · split at h
              · cases h
              · next hlast =>
                  cases h
                  refine .inr ⟨rfl, ?_, fun hg => ?_⟩
                  · obtain ⟨m, -, -, -, -, huser⟩ := hgrants
                    exact huser
                  · simpa [hgrants.unique hg] using hlast

theorem revokeStaff_eq_ok (h : revokeStaff env db now input = .ok db') :
    env.isListed input.targetUserId = false ∧
      db' = revoke db input.targetUserId now ∧
      (Grants db env input.targetUserId .manager →
        isLastManager input.targetUserId (lockActiveManagers db now) env = false) := by
  unfold revokeStaff at h
  split at h
  · cases h
  · next hchange =>
      split at h
      · cases h
      · next role hrole =>
          cases h
          refine ⟨refusedChange_eq_none hchange, rfl, fun hg => ?_⟩
          unfold revocableRole at hrole
          split at hrole
          · cases hrole
          · next row hrow =>
              split at hrole
              · cases hrole
              · next hlast =>
                  simpa [(grantingRow_eq_some hrow).1.unique hg] using hlast

/-- An override that is set is one the actor may set, on a person whose staff
row grants a role, and is live. -/
theorem setOverride_eq_ok {id : String} {change : OverrideChange}
    (h : setOverride env db now id input change = .ok db') :
    env.isListed input.targetUserId = false ∧
      (change.effect = .grant → change.permission ∈ input.actorPermissions) ∧
      (∀ expiresAt, change.expiresAt = some expiresAt → now < expiresAt) ∧
      (change.effect = .deny → change.permission = .staffManage →
        Grants db env input.targetUserId .manager →
        ¬ LiveOverride .deny db input.targetUserId now .staffManage →
        isLastManager input.targetUserId (lockActiveManagers db now) env = false) ∧
      replaceOverride db id input.targetUserId change.permission change.effect
        change.expiresAt input.actorUserId now = some db' := by
  unfold setOverride at h
  split at h
  · cases h
  · next hrefused =>
      split at h
      · cases h
      · next db₁ hreplace =>
          cases h
          unfold overrideRefusal at hrefused
          split at hrefused
          · cases hrefused
          · next hchange =>
              split at hrefused
              · cases hrefused
              · next hheld =>
                  split at hrefused
                  · cases hrefused
                  · next hover =>
                      split at hrefused
                      · cases hrefused
                      · next row hrow =>
                          obtain ⟨hgrants, hoverrides⟩ := grantingRow_eq_some hrow
                          refine ⟨refusedChange_eq_none hchange, fun hgrant => ?_,
                            fun expiresAt he => ?_, fun hdeny hmanage hg hfree => ?_, hreplace⟩
                          · by_contra hnot
                            exact hheld (by simp [hgrant, hnot])
                          · simpa [he] using hover
                          · have hrole : row.role = .manager := hgrants.unique hg
                            have hmay : .staffManage ∈ permissionsOfRecord row now := by
                              rw [permissionsOfRecord, mem_effectivePermissions, hoverrides,
                                hasLive_overridesOf, hasLive_overridesOf, hrole]
                              exact ⟨.inl (mem_STAFF_PERMISSIONS _), hfree⟩
                            simpa [hdeny, hmanage, hrole, hmay] using hrefused

theorem removeOverride_eq_ok {overrideId : String}
    (h : removeOverride env db now input overrideId = .ok db') :
    env.isListed input.targetUserId = false ∧
      ∃ removed, revokeOverride db input.targetUserId overrideId now = (db', some removed) ∧
        (removed.effect = .deny → removed.permission ∈ input.actorPermissions) := by
  unfold removeOverride at h
  split at h
  · cases h
  · next hchange =>
      split at h
      · cases h
      · next db₁ removed hrevoke =>
          split at h
          · cases h
          · next hlifted =>
              cases h
              refine ⟨refusedChange_eq_none hchange, removed, hrevoke, fun hdeny => ?_⟩
              by_contra hnot
              simp [refusedOverrideGrant, hdeny, hnot] at hlifted

theorem banRefusal_eq_none (h : banRefusal env db now input = none)
    (hg : Grants db env input.targetUserId .manager) :
    isLastManager input.targetUserId (lockActiveManagers db now) env = false := by
  obtain ⟨row, hrow, hrole⟩ := hg.grantingRow now
  unfold banRefusal at h
  dsimp only at h
  split at h
  · cases h
  · split at h
    · cases h
    · next hlast => simpa [hrow, hrole] using hlast

theorem moderateBan_eq_ok {expiresIn : Option Nat}
    (h : moderateBan env db now input expiresIn = .ok db') :
    (Grants db env input.targetUserId .manager →
        isLastManager input.targetUserId (lockActiveManagers db now) env = false) ∧
      ∃ expiresAt, db' = updateUser db input.targetUserId (banRow expiresAt)
        (key_banRow expiresAt) := by
  unfold moderateBan at h
  split at h
  · cases h
  · next hrefused =>
      split at h
      · cases h
      · dsimp only at h
        split at h
        · cases h
        · next db₁ hban =>
            cases h
            unfold ban at hban
            split at hban
            · cases hban
              exact ⟨banRefusal_eq_none hrefused, _, rfl⟩
            · cases hban

end Operation

end CleanStack.Admin
