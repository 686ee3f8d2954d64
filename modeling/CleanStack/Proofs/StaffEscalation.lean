import CleanStack.Proofs.StaffAccess

/-!
# What a staff change hands out

An operation is compared with its absence, at every later moment: the facts the
person's permissions rest on, before and after.

Two operations can hand out a permission the actor does not hold. A denial that
replaces a longer one ends earlier, and nobody asks whether the actor holds
what the person gets back. And a role given to someone whose staff row granted
nothing wakes the grants still on that row.
-/

namespace CleanStack.Admin

open CleanStack.Lib CleanStack.Drizzle CleanStack.AccessControl

/-! ## One operation -/

/-- Whatever the person may do at a later moment, they could have done then
without the operation, or the actor holds. -/
def NoEscalation (env : StaffEnv) (db db' : StaffDb) (now : Time) (input : StaffChange) :
    Prop :=
  ∀ t, now ≤ t → ∀ p ∈ permissionsAt db' env input.targetUserId t,
    p ∈ permissionsAt db env input.targetUserId t ∨ p ∈ input.actorPermissions

/-- The operation hands out a permission the actor does not hold: a denial that
stands past its own end is replaced, while the role of the person has the
permission; or a role is given to a person whose staff row grants none and
carries a grant. -/
def HandsOut (env : StaffEnv) (db : StaffDb) (now : Time) (input : StaffChange) :
    StaffOperation → Prop
  | .setOverride _ change =>
      change.effect = .deny ∧ change.permission ∉ input.actorPermissions ∧
      (∃ role, Grants db env input.targetUserId role ∧
        change.permission ∈ permissionsOfRole role) ∧
      ∃ expiresAt, change.expiresAt = some expiresAt ∧
        LiveOverride .deny db input.targetUserId expiresAt change.permission
  | .assignRole _ _ =>
      (∀ role, ¬ Grants db env input.targetUserId role) ∧
      ∃ t, now ≤ t ∧ ∃ p, p ∉ input.actorPermissions ∧
        LiveOverride .grant db input.targetUserId t p ∧
        ¬ LiveOverride .deny db input.targetUserId t p
  | _ => False

section Operation

variable {env : StaffEnv} {db db' : StaffDb} {now : Time} {input : StaffChange}

theorem assignRole_no_escalation_iff {role : StaffRole}
    {expectedRole : Option (Option StaffRole)}
    (h : assignRole env db now input role expectedRole = .ok db') :
    NoEscalation env db db' now input ↔
      ¬ HandsOut env db now input (.assignRole role expectedRole) := by
  obtain ⟨hlisted, hheld, ⟨rfl, hgrants⟩ | ⟨rfl, huser, -⟩⟩ := assignRole_eq_ok h
  · exact iff_of_true (fun t _ p hp => .inl hp) fun hout => hout.1 role hgrants
  · have hnew : Grants (assign db input.targetUserId role input.actorUserId now) env
        input.targetUserId role := grants_assign env huser
    constructor
    · rintro hno ⟨hnone, t, ht, p, hp, hgrant, hdeny⟩
      have hafter : p ∈ permissionsAt (assign db input.targetUserId role input.actorUserId now)
          env input.targetUserId t :=
        (mem_permissionsAt hlisted).2 ⟨role, hnew, .inr hgrant, hdeny⟩
      rcases hno t ht p hafter with hbefore | hactor
      · obtain ⟨role₀, hg, -⟩ := (mem_permissionsAt hlisted).1 hbefore
        exact hnone role₀ hg
      · exact hp hactor
    · intro hout t ht p hafter
      obtain ⟨role', hg, hgives, hdeny⟩ := (mem_permissionsAt hlisted).1 hafter
      rw [assign_grants hg] at hgives
      rcases hgives with hrole | hgrant
      · exact .inr (hheld p hrole)
      · by_cases hsome : ∃ role₀, Grants db env input.targetUserId role₀
        · obtain ⟨role₀, hg₀⟩ := hsome
          exact .inl ((mem_permissionsAt hlisted).2 ⟨role₀, hg₀, .inr hgrant, hdeny⟩)
        · by_contra hnot
          exact hout ⟨fun role₀ hg₀ => hsome ⟨role₀, hg₀⟩, t, ht, p,
            fun hactor => hnot (.inr hactor), hgrant, hdeny⟩

theorem revokeStaff_no_escalation (h : revokeStaff env db now input = .ok db') :
    NoEscalation env db db' now input := by
  obtain ⟨hlisted, rfl, -⟩ := revokeStaff_eq_ok h
  intro t _ p hp
  obtain ⟨role, hg, -⟩ := (mem_permissionsAt hlisted).1 hp
  exact absurd hg revoke_grants

theorem setOverride_no_escalation_iff {id : String} {change : OverrideChange}
    (h : setOverride env db now id input change = .ok db') :
    NoEscalation env db db' now input ↔
      ¬ HandsOut env db now input (.setOverride id change) := by
  obtain ⟨hlisted, hheld, hfuture, -, hreplace⟩ := setOverride_eq_ok h
  obtain ⟨hu, hm, -⟩ := replaceOverride_eq_some hreplace
  have hlive := replaceOverride_live hreplace
  constructor
  · rintro hno ⟨hdeny, hactor, ⟨role, hg, hrole⟩, expiresAt, he, hlonger⟩
    have hafter : change.permission ∈ permissionsAt db' env input.targetUserId expiresAt := by
      refine (mem_permissionsAt hlisted).2 ⟨role, (grants_congr hu hm).2 hg, .inl hrole, ?_⟩
      intro hnew
      rcases (hlive .deny expiresAt _).1 hnew with ⟨hne, -⟩ | ⟨-, -, hnew⟩
      · exact hne rfl
      · simp [isLiveRow, he] at hnew
    rcases hno expiresAt (Nat.le_of_lt (hfuture expiresAt he)) _ hafter with hbefore | hp
    · obtain ⟨-, -, -, hnot⟩ := (mem_permissionsAt hlisted).1 hbefore
      exact hnot hlonger
    · exact hactor hp
  · intro hout t ht p hafter
    obtain ⟨role, hg, hgives, hnot⟩ := (mem_permissionsAt hlisted).1 hafter
    rw [grants_congr hu hm] at hg
    by_cases hp : p = change.permission
    · subst hp
      cases heffect : change.effect with
      | grant => exact .inr (hheld heffect)
      | deny =>
          -- the new denial has ended by `t`, and no grant of the permission is left
          obtain ⟨expiresAt, he, hle⟩ : ∃ e, change.expiresAt = some e ∧ e ≤ t := by
            cases he : change.expiresAt with
            | none =>
                exact absurd ((hlive _ _ _).2
                  (.inr ⟨rfl, heffect.symm, by simp [isLiveRow, he]⟩)) hnot
            | some e =>
                refine ⟨e, rfl, Nat.le_of_not_lt fun hlt => hnot ?_⟩
                exact (hlive _ _ _).2 (.inr ⟨rfl, heffect.symm, by simpa [isLiveRow, he] using hlt⟩)
          have hrole : change.permission ∈ permissionsOfRole role := by
            rcases hgives with hrole | hgrant
            · exact hrole
            · rcases (hlive _ _ _).1 hgrant with ⟨hne, -⟩ | ⟨-, hgrant, -⟩
              · exact absurd rfl hne
              · rw [heffect] at hgrant
                cases hgrant
          by_contra hneither
          have hlonger : LiveOverride .deny db input.targetUserId t change.permission := by
            by_contra hfree
            exact hneither (.inl ((mem_permissionsAt hlisted).2 ⟨role, hg, .inl hrole, hfree⟩))
          exact hout ⟨heffect, fun hactor => hneither (.inr hactor), ⟨role, hg, hrole⟩,
            expiresAt, he, hlonger.earlier hle⟩
    · have hsame : ∀ effect, LiveOverride effect db' input.targetUserId t p ↔
          LiveOverride effect db input.targetUserId t p := by
        intro effect
        rw [hlive]
        constructor
        · rintro (⟨-, hold⟩ | ⟨heq, -⟩)
          · exact hold
          · exact absurd heq hp
        · exact fun hold => .inl ⟨hp, hold⟩
      rw [hsame] at hgives hnot
      exact .inl ((mem_permissionsAt hlisted).2 ⟨role, hg, hgives, hnot⟩)

theorem removeOverride_no_escalation {overrideId : String}
    (h : removeOverride env db now input overrideId = .ok db') :
    NoEscalation env db db' now input := by
  obtain ⟨hlisted, removed, hrevoke, hheld⟩ := removeOverride_eq_ok h
  have hlive := revokeOverride_live hrevoke
  have hrows : db'.users = db.users ∧ db'.members = db.members := by
    have hdb := congrArg Prod.fst hrevoke
    dsimp only at hdb
    rw [← hdb]
    exact ⟨rfl, rfl⟩
  intro t _ p hafter
  obtain ⟨role, hg, hgives, hnot⟩ := (mem_permissionsAt hlisted).1 hafter
  rw [grants_congr hrows.1 hrows.2] at hg
  have hgives : p ∈ permissionsOfRole role ∨
      LiveOverride .grant db input.targetUserId t p :=
    hgives.imp_right (hlive .grant t p).1
  by_cases hdeny : LiveOverride .deny db input.targetUserId t p
  · rcases (hlive .deny t p).2 hdeny with hstill | ⟨hp, heffect⟩
    · exact absurd hstill hnot
    · exact .inr (hp ▸ hheld heffect.symm)
  · exact .inl ((mem_permissionsAt hlisted).2 ⟨role, hg, hgives, hdeny⟩)

/-- A successful operation leaves the person with nothing new at any later
moment, the actor's own permissions apart, exactly if it hands nothing out. -/
theorem no_escalation_iff {op : StaffOperation}
    (h : op.run env db now input = .ok db') :
    NoEscalation env db db' now input ↔ ¬ HandsOut env db now input op := by
  cases op with
  | assignRole role expectedRole => exact assignRole_no_escalation_iff h
  | revoke => exact iff_of_true (revokeStaff_no_escalation h) id
  | setOverride id change => exact setOverride_no_escalation_iff h
  | removeOverride overrideId => exact iff_of_true (removeOverride_no_escalation h) id

end Operation

/-! ## A denial cut short -/

def staffUser (id : String) : UserRow := ⟨id, none, none, none, none, some true⟩

def staffRow (userId : String) (role : StaffRole) : StaffMemberRow :=
  ⟨userId, role.text, .console, none, 0, none⟩

def deniedReading (id userId : String) : OverrideRow :=
  ⟨id, userId, StaffPermission.usersRead.text, .deny, none, none, none⟩

/-- A manager and a support agent, both denied `users.read` for ever. -/
def twoDenied : StaffDb where
  users := ⟨[staffUser "boss", staffUser "agent"], by decide +kernel⟩
  members := ⟨[staffRow "boss" .manager, staffRow "agent" .support], by decide +kernel⟩
  overrides := ⟨[deniedReading "o1" "boss", deniedReading "o2" "agent"], by decide +kernel⟩

def unlisted : StaffEnv := ⟨[], false⟩

def byBoss : StaffChange := ⟨"boss", permissionsAt twoDenied unlisted "boss" 10, "agent"⟩

/-- The manager replaces the agent's denial by one until 20. -/
theorem shorter_denial_hands_out :
    ¬ ∀ (op : StaffOperation) (db' : StaffDb),
      op.run unlisted twoDenied 10 byBoss = .ok db' →
        NoEscalation unlisted twoDenied db' 10 byBoss := by
  intro hall
  have h := hall (.setOverride "o3" ⟨.usersRead, .deny, some 20⟩) _ rfl
    20 (by decide) .usersRead (by decide)
  exact absurd h (by decide)

theorem no_escalation_promotion :
    ∃ db', StaffOperation.run unlisted twoDenied 10 byBoss (.setOverride "o3"
        ⟨.opsRead, .grant, some 20⟩) = .ok db' ∧
      NoEscalation unlisted twoDenied db' 10 byBoss := by
  refine ⟨_, rfl, (@no_escalation_iff unlisted twoDenied _ 10 byBoss
    (.setOverride "o3" ⟨.opsRead, .grant, some 20⟩) rfl).2 ?_⟩
  rintro ⟨heffect, -⟩
  cases heffect

end CleanStack.Admin
