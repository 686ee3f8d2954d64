import CleanStack.Proofs.ApprovalLife
import CleanStack.Proofs.StaffAccess

/-!
# Four eyes

Every step of the approval service changes the database as `DbStep` allows,
which settles what becomes of a request. Who decided it is a question about the
run: a decision that is under way remembers what it was begun with, and by the
time it may write, the requester's power has been looked at after it began
(`Underway`). When a request is executed or rejected, one such decision has
done it.
-/

namespace CleanStack.Admin

open CleanStack.Lib CleanStack.Drizzle CleanStack.AccessControl

/-! ## Holding a permission -/

/-- The person has the permission: the environment lists them, or they are not
banned and their staff row and overrides give it to them. -/
def Holds (env : StaffEnv) (staff : StaffDb) (now : Time) (userId : String)
    (p : StaffPermission) : Prop :=
  env.isListed userId = true ∨
  ∃ role user, Grants staff env userId role ∧ staff.users.find? userId = some user ∧
    banIsLive user.banned user.banExpires now = false ∧
    (p ∈ permissionsOfRole role ∨ LiveOverride .grant staff userId now p) ∧
    ¬ LiveOverride .deny staff userId now p

theorem findActive_banned {db : StaffDb} {userId : String} {now : Time} {row : StaffRecord}
    (h : findActive db userId now = some row) :
    ∃ user, db.users.find? userId = some user ∧
      row.banned = banIsLive user.banned user.banExpires now := by
  obtain ⟨m, -, h⟩ := Option.bind_eq_some_iff.1 h
  obtain ⟨user, huser, h⟩ := Option.bind_eq_some_iff.1 h
  obtain ⟨role, -, h⟩ := Option.bind_eq_some_iff.1 h
  cases h
  exact ⟨user, huser, rfl⟩

theorem requesterHolds_holds {env : StaffEnv} {staff : StaffDb} {now : Time}
    {record : ApprovalRecord} (h : requesterHolds env staff now record = true) :
    Holds env staff now record.requestedBy (APPROVAL_ACTION_PERMISSION record.action) := by
  cases hlisted : env.isListed record.requestedBy with
  | true => exact .inl hlisted
  | false =>
      right
      unfold requesterHolds at h
      dsimp only at h
      split at h
      · cases h
      · next access haccess =>
          simp only [staffAccessOf, hlisted, Bool.false_eq_true, if_false,
            Option.map_eq_some_iff] at haccess
          obtain ⟨row, hrow, rfl⟩ := haccess
          obtain ⟨hunbanned, hgrants⟩ := Option.filter_eq_some_iff.1 hrow
          obtain ⟨hactive, hbanned⟩ := Option.filter_eq_some_iff.1 hunbanned
          have hgranting : grantingRow env staff record.requestedBy now = some row :=
            Option.filter_eq_some_iff.2 ⟨hactive, hgrants⟩
          obtain ⟨hg, hover⟩ := grantingRow_eq_some hgranting
          obtain ⟨user, huser, hban⟩ := findActive_banned hactive
          have hmem : APPROVAL_ACTION_PERMISSION record.action ∈
              permissionsOfRecord row now := by simpa using h
          rw [permissionsOfRecord, mem_effectivePermissions, hover, hasLive_overridesOf,
            hasLive_overridesOf] at hmem
          refine ⟨row.role, user, hg, huser, ?_, hmem⟩
          rw [← hban]
          simpa using hbanned

/-! ## Decisions under way -/

section Run

variable {safeParse : ApprovalAction → Kit.JsValue → Option Kit.JsValue} {env : StaffEnv}
  {settings : ApprovalSettings} {s m t : ApprovalState}

/-- The decision was begun in the run, and at some moment from then on the
requester held the permission of the action. -/
def HeldSince (safeParse : ApprovalAction → Kit.JsValue → Option Kit.JsValue)
    (env : StaffEnv) (settings : ApprovalSettings) (s : ApprovalState)
    (es : List ApprovalEvent) (input : ApprovalDecision) (record : ApprovalRecord) : Prop :=
  ∃ before authorized mid after y, es = before ++ .beginDecide input authorized :: (mid ++ after) ∧
    exec (approvalStep safeParse env settings) s
      (before ++ .beginDecide input authorized :: mid) = some y ∧
    Holds env y.db.staff y.clock record.requestedBy (APPROVAL_ACTION_PERMISSION record.action)

/-- What a decision has checked by the time it is under way. -/
structure Underway (safeParse : ApprovalAction → Kit.JsValue → Option Kit.JsValue)
    (env : StaffEnv) (settings : ApprovalSettings) (s : ApprovalState)
    (es : List ApprovalEvent) (m : ApprovalState) (d : PendingDecision) : Prop where
  id : d.record.id = d.input.approvalId
  notRequester : d.input.deciderUserId ≠ d.record.requestedBy
  notSubject : d.input.deciderUserId ≠ d.record.subjectId
  permission : APPROVAL_ACTION_PERMISSION d.record.action ∈ d.input.deciderPermissions
  begun : ∃ before authorized after, es = before ++ .beginDecide d.input authorized :: after
  row : ∃ r, m.db.approvals.find? d.record.id = some r ∧ SameRequest d.record r
  held : d.stage = .holding → HeldSince safeParse env settings s es d.input d.record

theorem HeldSince.snoc {es : List ApprovalEvent} {input : ApprovalDecision}
    {record : ApprovalRecord} (h : HeldSince safeParse env settings s es input record)
    (e : ApprovalEvent) : HeldSince safeParse env settings s (es ++ [e]) input record := by
  obtain ⟨before, authorized, mid, after, y, rfl, hy, hholds⟩ := h
  exact ⟨before, authorized, mid, after ++ [e], y, by simp, hy, hholds⟩

theorem Underway.snoc {es : List ApprovalEvent} {d : PendingDecision}
    (h : Underway safeParse env settings s es m d) (e : ApprovalEvent)
    (hrow : ∀ id r, m.db.approvals.find? id = some r →
      ∃ r', t.db.approvals.find? id = some r' ∧ SameRequest r r') :
    Underway safeParse env settings s (es ++ [e]) t d := by
  refine ⟨h.id, h.notRequester, h.notSubject, h.permission, ?_, ?_, fun hs => (h.held hs).snoc e⟩
  · obtain ⟨before, authorized, after, rfl⟩ := h.begun
    exact ⟨before, authorized, after ++ [e], by simp⟩
  · obtain ⟨r, hr, hsame⟩ := h.row
    obtain ⟨r', hr', hsame'⟩ := hrow _ r hr
    exact ⟨r', hr', hsame.trans hsame'⟩

theorem loadDecision_eq_ok {db : ApprovalDb} {now : Time} {input : ApprovalDecision}
    {authorized : Except AppError Unit} {record : ApprovalRecord}
    (h : loadDecision safeParse db now input authorized = .ok record) :
    db.approvals.find? input.approvalId = some record ∧
      refusal now record input = none := by
  unfold loadDecision at h
  split at h
  · cases h
  · next found hfound =>
      split at h
      · cases h
      · next hrefused =>
          have hrecord : found = record := by
            split at h
            · split at h
              · cases h
              · exact Except.ok.inj h
            · exact Except.ok.inj h
          subst hrecord
          exact ⟨hfound, hrefused⟩

theorem refusal_eq_none {now : Time} {record : ApprovalRecord} {input : ApprovalDecision}
    (h : refusal now record input = none) :
    input.deciderUserId ≠ record.requestedBy ∧ input.deciderUserId ≠ record.subjectId ∧
      APPROVAL_ACTION_PERMISSION record.action ∈ input.deciderPermissions := by
  unfold refusal at h
  split at h
  · cases h
  · next hrequester =>
      split at h
      · cases h
      · next hsubject =>
          dsimp only at h
          split at h
          · cases h
          · next hpermission =>
              exact ⟨fun heq => hrequester heq.symm, fun heq => hsubject heq.symm,
                by simpa using hpermission⟩

/-! ## One step -/

/-- A step is at most two changes of the database, the first of which is the
only one that may decide a request; a decision that is past looking at the
requester does that. -/
theorem approvalStep_db {e : ApprovalEvent}
    (h : approvalStep safeParse env settings s e = some t) :
    ∃ decider mid, DbStep decider s.db mid ∧ DbStep none mid t.db ∧
      ∀ id who, decider = some (id, who) → ∃ d ∈ s.decisions, d.stage = .holding ∧
        id = d.record.id ∧ who = d.input.deciderUserId := by
  have hquiet : ∀ {mid : ApprovalDb}, DbStep none s.db mid → DbStep none mid t.db →
      ∃ decider mid, DbStep decider s.db mid ∧ DbStep none mid t.db ∧
        ∀ id who, decider = some (id, who) → ∃ d ∈ s.decisions, d.stage = .holding ∧
          id = d.record.id ∧ who = d.input.deciderUserId :=
    fun h₁ h₂ => ⟨none, _, h₁, h₂, nofun⟩
  cases e with
  | beginGate input prepared =>
      simp only [approvalStep] at h
      split at h <;> cases h
      · exact hquiet (.refl none _) (.refl none _)
      · exact hquiet (.refl none _) (.refl none _)
  | commitGate i id =>
      obtain ⟨⟨input, params⟩, -, h⟩ := Option.bind_eq_some_iff.1 h
      dsimp only at h
      split at h
      · next db approvalId hgate =>
          cases h
          obtain ⟨mid, h₁, h₂⟩ := gateTransaction_steps none hgate
          exact hquiet h₁ h₂
      · cases h
        exact hquiet (.refl none _) (.refl none _)
  | beginDecide input authorized =>
      simp only [approvalStep] at h
      split at h <;> cases h
      · exact hquiet (.refl none _) (.refl none _)
      · exact hquiet (.refl none _) (.refl none _)
  | readRequester i =>
      obtain ⟨d, -, h⟩ := Option.bind_eq_some_iff.1 h
      split at h
      · split at h <;> cases h
        · exact hquiet (.refl none _) (.refl none _)
        · exact hquiet (.refl none _) (.refl none _)
      · cases h
  | commitDecision i run =>
      obtain ⟨d, hd, h⟩ := Option.bind_eq_some_iff.1 h
      split at h
      · next hstage =>
          cases h
          cases hout : decisionTransaction safeParse s.db s.clock d run with
          | threw => exact ⟨none, _, .refl none _, .refl none _, nofun⟩
          | failed claimed error =>
              cases claimed
              · exact ⟨none, _, .refl none _, .refl none _, nofun⟩
              · exact ⟨none, _, .refl none _, .refl none _, nofun⟩
          | committed db =>
              refine ⟨some (d.record.id, d.input.deciderUserId), db, ?_, .refl none _, ?_⟩
              · unfold decisionTransaction at hout
                split at hout
                · exact rejectTransaction_step hout
                · exact approveTransaction_step hout
              · intro id who heq
                cases heq
                exact ⟨d, List.mem_of_getElem? hd, hstage, rfl, rfl⟩
      · cases h
  | commitFailure i =>
      obtain ⟨d, -, h⟩ := Option.bind_eq_some_iff.1 h
      split at h
      · cases h
        exact hquiet (failureTransaction_step _) (.refl none _)
      · cases h
  | beginCancel approvalId userId =>
      simp only [approvalStep] at h
      split at h <;> cases h
      · exact hquiet (.refl none _) (.refl none _)
      · exact hquiet (.refl none _) (.refl none _)
  | commitCancel i =>
      obtain ⟨⟨record, userId⟩, -, h⟩ := Option.bind_eq_some_iff.1 h
      dsimp only at h
      split at h
      · next db hcancel =>
          cases h
          exact hquiet (cancelTransaction_step hcancel) (.refl none _)
      · cases h
        exact hquiet (.refl none _) (.refl none _)
  | expireDue batch limit =>
      simp only [approvalStep] at h
      split at h <;> cases h
      exact hquiet (expireTransaction_step batch) (.refl none _)
  | closeForDeletedUser userId =>
      cases h
      obtain ⟨mid, h₁, h₂⟩ := closeTransaction_steps none s.db s.clock userId
      exact hquiet h₁ h₂
  | changeStaff staff =>
      cases h
      have hsame := DbStep.refl none s.db
      exact hquiet hsame ⟨hsame.each, hsame.fresh⟩
  | wait n =>
      cases h
      exact hquiet (.refl none _) (.refl none _)

theorem approvalStep_row {e : ApprovalEvent}
    (h : approvalStep safeParse env settings s e = some t) {id : String} {r : ApprovalRecord}
    (hr : s.db.approvals.find? id = some r) :
    ∃ r', t.db.approvals.find? id = some r' ∧ SameRequest r r' ∧
      (r.status ≠ .pending → r'.status = r.status) := by
  obtain ⟨decider, mid, h₁, h₂, -⟩ := approvalStep_db h
  obtain ⟨r₁, hr₁, hsame₁, hkept₁⟩ := h₁.row hr
  obtain ⟨r₂, hr₂, hsame₂, hkept₂⟩ := h₂.row hr₁
  refine ⟨r₂, hr₂, hsame₁.trans hsame₂, fun hne => ?_⟩
  have hstatus := (hkept₁ hne).1
  exact (hkept₂ (hstatus ▸ hne)).1.trans hstatus

/-- Where a decision under way comes from. -/
theorem decisions_step {e : ApprovalEvent}
    (h : approvalStep safeParse env settings m e = some t) {d : PendingDecision}
    (hd : d ∈ t.decisions) :
    d ∈ m.decisions ∨
    (∃ input authorized record, e = .beginDecide input authorized ∧
      loadDecision safeParse m.db m.clock input authorized = .ok record ∧
      d = ⟨input, record, .loaded⟩) ∨
    ∃ d₀ ∈ m.decisions, ∃ stage, d = { d₀ with stage := stage } ∧
      (stage = .holding → requesterHolds env m.db.staff m.clock d₀.record = true) := by
  cases e with
  | beginGate input prepared =>
      simp only [approvalStep] at h
      split at h <;> cases h
      · exact .inl hd
      · exact .inl hd
  | commitGate i id =>
      obtain ⟨⟨input, params⟩, -, h⟩ := Option.bind_eq_some_iff.1 h
      dsimp only at h
      split at h <;> cases h
      · exact .inl hd
      · exact .inl hd
  | beginDecide input authorized =>
      simp only [approvalStep] at h
      split at h
      · next record hload =>
          cases h
          rcases List.mem_append.1 hd with hold | hnew
          · exact .inl hold
          · exact .inr (.inl ⟨input, authorized, record, rfl, hload, List.mem_singleton.1 hnew⟩)
      · cases h
        exact .inl hd
  | readRequester i =>
      obtain ⟨d₀, hd₀, h⟩ := Option.bind_eq_some_iff.1 h
      have hmem := List.mem_of_getElem? hd₀
      split at h
      · split at h
        · next hholds =>
            cases h
            rcases List.mem_or_eq_of_mem_set hd with hold | rfl
            · exact .inl hold
            · exact .inr (.inr ⟨d₀, hmem, .holding, rfl, fun _ => hholds⟩)
        · cases h
          rcases List.mem_or_eq_of_mem_set hd with hold | rfl
          · exact .inl hold
          · exact .inr (.inr ⟨d₀, hmem, .closing _, rfl, nofun⟩)
      · cases h
  | commitDecision i run =>
      obtain ⟨d₀, hd₀, h⟩ := Option.bind_eq_some_iff.1 h
      split at h
      · cases h
        unfold ApprovalState.afterDecision at hd
        split at hd
        · exact .inl (List.mem_of_mem_eraseIdx hd)
        · rcases List.mem_or_eq_of_mem_set hd with hold | rfl
          · exact .inl hold
          · exact .inr (.inr ⟨d₀, List.mem_of_getElem? hd₀, .closing _, rfl, nofun⟩)
        · exact .inl (List.mem_of_mem_eraseIdx hd)
        · exact .inl (List.mem_of_mem_eraseIdx hd)
      · cases h
  | commitFailure i =>
      obtain ⟨d₀, -, h⟩ := Option.bind_eq_some_iff.1 h
      split at h <;> cases h
      exact .inl (List.mem_of_mem_eraseIdx hd)
  | beginCancel approvalId userId =>
      simp only [approvalStep] at h
      split at h <;> cases h
      · exact .inl hd
      · exact .inl hd
  | commitCancel i =>
      obtain ⟨⟨record, userId⟩, -, h⟩ := Option.bind_eq_some_iff.1 h
      dsimp only at h
      split at h <;> cases h
      · exact .inl hd
      · exact .inl hd
  | expireDue batch limit =>
      simp only [approvalStep] at h
      split at h <;> cases h
      exact .inl hd
  | closeForDeletedUser userId =>
      cases h
      exact .inl hd
  | changeStaff staff =>
      cases h
      exact .inl hd
  | wait n =>
      cases h
      exact .inl hd

theorem underway_step {es : List ApprovalEvent} {e : ApprovalEvent}
    (hrun : exec (approvalStep safeParse env settings) s es = some m)
    (hi : ∀ d ∈ m.decisions, Underway safeParse env settings s es m d)
    (h : approvalStep safeParse env settings m e = some t) :
    ∀ d ∈ t.decisions, Underway safeParse env settings s (es ++ [e]) t d := by
  have hrows : ∀ id r, m.db.approvals.find? id = some r →
      ∃ r', t.db.approvals.find? id = some r' ∧ SameRequest r r' := by
    intro id r hr
    obtain ⟨r', hr', hsame, -⟩ := approvalStep_row h hr
    exact ⟨r', hr', hsame⟩
  intro d hd
  rcases decisions_step h hd with hold | ⟨input, authorized, record, rfl, hload, rfl⟩ |
    ⟨d₀, hd₀, stage, rfl, hholds⟩
  · exact (hi d hold).snoc e hrows
  · obtain ⟨hfound, hrefused⟩ := loadDecision_eq_ok hload
    obtain ⟨hrequester, hsubject, hpermission⟩ := refusal_eq_none hrefused
    have hid : record.id = input.approvalId := (Table.find?_eq_some.1 hfound).2
    obtain ⟨r', hr', hsame⟩ := hrows _ _ hfound
    exact ⟨hid, hrequester, hsubject, hpermission, ⟨es, authorized, [], rfl⟩,
      ⟨r', hid ▸ hr', hsame⟩, nofun⟩
  · have hold := (hi d₀ hd₀).snoc e hrows
    refine ⟨hold.id, hold.notRequester, hold.notSubject, hold.permission, hold.begun, hold.row,
      fun hstage => ?_⟩
    obtain ⟨before, authorized, after, rfl⟩ := (hi d₀ hd₀).begun
    exact ⟨before, authorized, after, [e], m, by simp, hrun, requesterHolds_holds (hholds hstage)⟩

/-! ## Any run -/

/-- One decision of the run has decided the request, within its rights. -/
def DecidedInRun (safeParse : ApprovalAction → Kit.JsValue → Option Kit.JsValue)
    (env : StaffEnv) (settings : ApprovalSettings) (s : ApprovalState)
    (es : List ApprovalEvent) (r : ApprovalRecord) : Prop :=
  ∃ input : ApprovalDecision, input.approvalId = r.id ∧
    r.decidedBy = some input.deciderUserId ∧
    input.deciderUserId ≠ r.requestedBy ∧ input.deciderUserId ≠ r.subjectId ∧
    APPROVAL_ACTION_PERMISSION r.action ∈ input.deciderPermissions ∧
    HeldSince safeParse env settings s es input r

theorem HeldSince.congr {es : List ApprovalEvent} {input : ApprovalDecision}
    {r r' : ApprovalRecord} (h : HeldSince safeParse env settings s es input r)
    (hsame : SameRequest r r') : HeldSince safeParse env settings s es input r' := by
  unfold HeldSince
  rw [hsame.requestedBy, hsame.action]
  exact h

theorem decided_step {es : List ApprovalEvent} {e : ApprovalEvent}
    (hunderway : ∀ d ∈ m.decisions, Underway safeParse env settings s es m d)
    (hdecided : ∀ id r, m.db.approvals.find? id = some r → Decides r.status →
      DecidedInRun safeParse env settings s es r)
    (h : approvalStep safeParse env settings m e = some t) {id : String} {r : ApprovalRecord}
    (hr : t.db.approvals.find? id = some r) (hdecides : Decides r.status) :
    DecidedInRun safeParse env settings s (es ++ [e]) r := by
  obtain ⟨decider, mid, h₁, h₂, hby⟩ := approvalStep_db h
  rcases h₂.decided hr hdecides with ⟨r₁, hr₁, hsame₁, hstatus₁, hdec₁⟩ | ⟨who, hwho, -⟩
  · rw [hstatus₁] at hdecides
    rcases h₁.decided hr₁ hdecides with ⟨r₀, hr₀, hsame₀, hstatus₀, hdec₀⟩ | ⟨who, hwho, hdec₀⟩
    · rw [hstatus₀] at hdecides
      obtain ⟨input, hid, hdec, hrequester, hsubject, hpermission, hheld⟩ :=
        hdecided id r₀ hr₀ hdecides
      have hsame := hsame₀.trans hsame₁
      refine ⟨input, hid.trans hsame.id.symm, by rw [hdec₁, hdec₀, hdec], ?_, ?_, ?_,
        (hheld.snoc e).congr hsame⟩
      · rwa [hsame.requestedBy]
      · rwa [hsame.subjectId]
      · rwa [hsame.action]
    · obtain ⟨d, hd, hholding, hid, rfl⟩ := hby _ _ hwho
      have hok := hunderway d hd
      obtain ⟨r₀, hr₀, hsame₀⟩ := hok.row
      obtain ⟨r', hr', hsame', -⟩ := approvalStep_row h hr₀
      have hrid : id = d.record.id := by
        have hid₁ : r₁.id = id := (Table.find?_eq_some.1 hr₁).2
        exact hid₁.symm.trans hid
      rw [hrid, hr'] at hr
      cases hr
      have hsame := hsame₀.trans hsame'
      refine ⟨d.input, hok.id.symm.trans hsame.id.symm, by rw [hdec₁, hdec₀], ?_, ?_, ?_,
        ((hok.held hholding).snoc e).congr hsame⟩
      · rw [hsame.requestedBy]
        exact hok.notRequester
      · rw [hsame.subjectId]
        exact hok.notSubject
      · rw [hsame.action]
        exact hok.permission
  · cases hwho

/-- What the committed state at the end of a run says about every request. -/
structure FourEyes (safeParse : ApprovalAction → Kit.JsValue → Option Kit.JsValue)
    (env : StaffEnv) (settings : ApprovalSettings) (s : ApprovalState)
    (es : List ApprovalEvent) (t : ApprovalState) : Prop where
  status : ∀ r ∈ t.db.approvals.rows, r.status = .pending ∨ Settled r.status
  once : ∀ before after m, es = before ++ after →
    exec (approvalStep safeParse env settings) s before = some m →
    ∀ r ∈ m.db.approvals.rows, ∃ r' ∈ t.db.approvals.rows, r'.id = r.id ∧
      (r.status ≠ .pending → r'.status = r.status)
  effect : ∀ id, t.db.effects.count id =
    if (t.db.approvals.find? id).any fun r => r.status = .executed then 1 else 0
  decided : ∀ r ∈ t.db.approvals.rows, Decides r.status →
    DecidedInRun safeParse env settings s es r
  onePending : ∀ r ∈ t.db.approvals.rows, ∀ r' ∈ t.db.approvals.rows,
    r.status = .pending → r'.status = .pending →
    r.action = r'.action → r.subjectId = r'.subjectId → r = r'
  announced : ∀ r ∈ t.db.approvals.rows,
    endings t.db r.id = if r.status = .pending then [] else [r.status]

def noApprovals (staff : StaffDb) : ApprovalDb := ⟨Table.empty, staff, [], []⟩

theorem sound_noApprovals (staff : StaffDb) : Sound (noApprovals staff) :=
  ⟨fun _ => ⟨rfl, rfl⟩, fun _ _ _ _ h => nomatch h⟩

theorem rows_run {es : List ApprovalEvent}
    (h : exec (approvalStep safeParse env settings) m es = some t) {id : String}
    {r : ApprovalRecord} (hr : m.db.approvals.find? id = some r) :
    ∃ r', t.db.approvals.find? id = some r' ∧ (r.status ≠ .pending → r'.status = r.status) := by
  induction es generalizing m r with
  | nil =>
      cases h
      exact ⟨r, hr, fun _ => rfl⟩
  | cons e es ih =>
      obtain ⟨m', hm, hrest⟩ := exec_cons_iff.1 h
      obtain ⟨r₁, hr₁, -, hkept₁⟩ := approvalStep_row hm hr
      obtain ⟨r₂, hr₂, hkept₂⟩ := ih hrest hr₁
      refine ⟨r₂, hr₂, fun hne => ?_⟩
      have hstatus := hkept₁ hne
      exact (hkept₂ (hstatus ▸ hne)).trans hstatus

/-- What every state of a run keeps, with the events that led there. -/
structure RunInv (safeParse : ApprovalAction → Kit.JsValue → Option Kit.JsValue)
    (env : StaffEnv) (settings : ApprovalSettings) (s : ApprovalState)
    (es : List ApprovalEvent) (m : ApprovalState) : Prop where
  sound : Sound m.db
  underway : ∀ d ∈ m.decisions, Underway safeParse env settings s es m d
  decided : ∀ id r, m.db.approvals.find? id = some r → Decides r.status →
    DecidedInRun safeParse env settings s es r

theorem runInv_step {es : List ApprovalEvent} {e : ApprovalEvent}
    (hrun : exec (approvalStep safeParse env settings) s es = some m)
    (hi : RunInv safeParse env settings s es m)
    (h : approvalStep safeParse env settings m e = some t) :
    RunInv safeParse env settings s (es ++ [e]) t := by
  obtain ⟨decider, mid, h₁, h₂, -⟩ := approvalStep_db h
  exact ⟨(hi.sound.step h₁).step h₂, underway_step hrun hi.underway h,
    fun id r => decided_step hi.underway hi.decided h⟩

def beforeRequests (clock : Time) (staff : StaffDb) : ApprovalState :=
  ⟨clock, noApprovals staff, [], [], []⟩

theorem runInv_beforeRequests (clock : Time) (staff : StaffDb) :
    RunInv safeParse env settings (beforeRequests clock staff) []
      (beforeRequests clock staff) :=
  ⟨sound_noApprovals staff, fun _ hd => absurd hd List.not_mem_nil, fun _ _ h => nomatch h⟩

/-- Whatever is asked, decided, withdrawn, swept or closed, and in whatever
order, the committed states keep to the four-eyes rules. -/
theorem four_eyes {clock : Time} {staff : StaffDb} {es : List ApprovalEvent}
    (h : exec (approvalStep safeParse env settings) (beforeRequests clock staff) es = some t) :
    FourEyes safeParse env settings (beforeRequests clock staff) es t := by
  obtain ⟨hsound, -, hdecided⟩ : RunInv safeParse env settings (beforeRequests clock staff) es t :=
    runs_trace_inv (runInv_beforeRequests clock staff)
      (fun es m e t hrun hi hstep => runInv_step hrun hi hstep) h
  have hfind : ∀ r ∈ t.db.approvals.rows, t.db.approvals.find? r.id = some r :=
    fun r hr => Table.find?_eq_some.2 ⟨hr, rfl⟩
  constructor
  · intro r hr
    have hlife := hsound.life r.id
    rw [hfind r hr] at hlife
    exact hlife.imp And.left And.left
  · rintro before after m rfl hm r hr
    rw [exec_append, hm, Option.bind_some] at h
    obtain ⟨r', hr', hkept⟩ := rows_run h (Table.find?_eq_some.2 ⟨hr, rfl⟩)
    obtain ⟨hmem, hid⟩ := Table.find?_eq_some.1 hr'
    exact ⟨r', hmem, hid, hkept⟩
  · intro id
    have hlife := hsound.life id
    cases hr : t.db.approvals.find? id with
    | none =>
        rw [hr] at hlife
        exact hlife.2
    | some r =>
        rw [hr] at hlife
        rcases hlife with ⟨hpending, -, hcount⟩ | ⟨-, -, hcount⟩
        · simp [hcount, hpending]
        · simp [hcount]
  · intro r hr
    exact hdecided r.id r (hfind r hr)
  · intro r hr r' hr' hp hp' haction hsubject
    have hid := hsound.onePending r.id r'.id r r' (hfind r hr) (hfind r' hr') hp hp' haction
      hsubject
    exact Table.eq_of_key hr hr' hid
  · intro r hr
    have hlife := hsound.life r.id
    rw [hfind r hr] at hlife
    rcases hlife with ⟨hpending, hnews, -⟩ | ⟨hsettled, hnews, -⟩
    · rw [if_pos hpending, hnews]
    · rw [if_neg hsettled.ne_pending, hnews]

end Run

/-! ## A revocation two people agree on -/

def consoleUser (id : String) : UserRow := ⟨id, none, none, none, none, none⟩

def consoleRow (userId : String) (role : StaffRole) : StaffMemberRow :=
  ⟨userId, role.text, .console, none, 0, none⟩

def threeStaff : StaffDb where
  users := ⟨[consoleUser "ann", consoleUser "ben", consoleUser "cid"], by decide +kernel⟩
  members := ⟨[consoleRow "ann" .manager, consoleRow "ben" .manager, consoleRow "cid" .support],
    by decide +kernel⟩
  overrides := Table.empty

/-- `ann` asks for the revocation of `cid`, `ben` approves it. -/
def annAsksBenApproves : List ApprovalEvent :=
  [.beginGate ⟨.staffRevoke, "cid", "ann"⟩ (.ok (.obj [])), .commitGate 0 "a1",
    .beginDecide ⟨"a1", "ben", [.approvalsDecide, .staffManage], .approve, "agreed"⟩ (.ok ()),
    .readRequester 0, .commitDecision 0 (.ok (revoke threeStaff "cid" 0))]

theorem four_eyes_revocation :
    ∃ t, exec (approvalStep (fun _ _ => none) ⟨[], false⟩ ⟨true, [.staffRevoke], 72⟩)
        (beforeRequests 0 threeStaff) annAsksBenApproves = some t ∧
      t.db.effects = ["a1"] ∧
      FourEyes (fun _ _ => none) ⟨[], false⟩ ⟨true, [.staffRevoke], 72⟩
        (beforeRequests 0 threeStaff) annAsksBenApproves t :=
  ⟨_, rfl, rfl, four_eyes rfl⟩

end CleanStack.Admin
