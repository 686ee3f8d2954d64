import CleanStack.Rgpd.Ownership
import CleanStack.Proofs.LastManager

/-!
# Organizations after a wipe

A deletion request is refused while the user is the only owner of an
organization with other members. The wipe, a grace period later, does not ask
again: two owners who have both asked are both let go, and the organization is
left with members and no owner.

What a wipe does to one organization is read off `membersOf_wipe`. From it the
wipes that leave every organization owned are exactly those at whose time the
user has a successor wherever other members stay behind.
-/

namespace CleanStack.Rgpd

open CleanStack.Lib CleanStack.Drizzle CleanStack.AccessControl CleanStack.Admin

/-- Every organization that has members has an owner among them. -/
def Owned (rule : OwnerRule) (db : OrgDb) : Prop :=
  ∀ o ∈ db.organizations.rows, ∀ m ∈ membersOf db o.id,
    ∃ p ∈ membersOf db o.id, rule.owns p = true

/-- Wherever the user leaves other members behind, one of them is an owner. The
personal organizations of a user go with the user. -/
def Succeeded (rule : OwnerRule) (db : OrgDb) (userId : String) : Prop :=
  ∀ o ∈ db.organizations.rows, isPersonalOrgSlug o.slug = false →
    (∃ m ∈ membersOf db o.id, m.userId = userId) →
    (∃ m ∈ membersOf db o.id, m.userId ≠ userId) →
    ∃ m ∈ membersOf db o.id, m.userId ≠ userId ∧ rule.owns m = true

theorem mem_membersOf {db : OrgDb} {orgId : String} {m : MemberRow} :
    m ∈ membersOf db orgId ↔ m ∈ db.members.rows ∧ m.organizationId = orgId := by
  rw [membersOf, List.mem_filter, decide_eq_true_eq]

theorem ownedOrEmpty_iff {rule : OwnerRule} {db : OrgDb} {orgId : String} :
    ownedOrEmpty rule db orgId = true ↔
      ∀ m ∈ membersOf db orgId, ∃ p ∈ membersOf db orgId, rule.owns p = true := by
  rw [ownedOrEmpty, Bool.or_eq_true, List.isEmpty_iff, List.any_eq_true]
  constructor
  · rintro (hnil | howner) m hm
    · rw [hnil] at hm
      cases hm
    · exact howner
  · intro h
    cases hl : membersOf db orgId with
    | nil => exact .inl rfl
    | cons m rest =>
        rw [hl] at h
        exact .inr (h m List.mem_cons_self)

/-! ## What a wipe leaves -/

section Wipe

variable {rule : OwnerRule} {db : OrgDb} {userId : String}

theorem mem_membersOf_left {orgId : String} {m : MemberRow} :
    m ∈ membersOf (withoutMember db userId) orgId ↔ m ∈ membersOf db orgId ∧ m.userId ≠ userId := by
  rw [mem_membersOf, mem_membersOf, withoutMember, Table.mem_delete, decide_eq_false_iff_not]
  exact ⟨fun ⟨⟨hm, hu⟩, ho⟩ => ⟨⟨hm, ho⟩, hu⟩, fun ⟨⟨hm, ho⟩, hu⟩ => ⟨⟨hm, hu⟩, ho⟩⟩

/-- What the wipe deletes of the organizations: the user's personal ones, and
those the user was alone in. -/
theorem deletedByWipe_iff {o : OrganizationRow} :
    deletedByWipe db userId o = true ↔
      (∃ m ∈ membersOf db o.id, m.userId = userId) ∧
        (isPersonalOrgSlug o.slug = true ∨ ∀ m ∈ membersOf db o.id, m.userId = userId) := by
  have hmine : ((membershipsOf db userId).map MemberRow.organizationId).contains o.id = true ↔
      ∃ m ∈ membersOf db o.id, m.userId = userId := by
    rw [List.contains_eq_mem, decide_eq_true_eq, List.mem_map]
    constructor
    · rintro ⟨m, hm, horg⟩
      obtain ⟨hm, huser⟩ := List.mem_filter.1 hm
      exact ⟨m, mem_membersOf.2 ⟨hm, horg⟩, of_decide_eq_true huser⟩
    · rintro ⟨m, hm, huser⟩
      obtain ⟨hm, horg⟩ := mem_membersOf.1 hm
      exact ⟨m, List.mem_filter.2 ⟨hm, decide_eq_true huser⟩, horg⟩
  have halone : (membersOf (withoutMember db userId) o.id).length = 0 ↔
      ∀ m ∈ membersOf db o.id, m.userId = userId := by
    rw [List.length_eq_zero_iff, List.eq_nil_iff_forall_not_mem]
    constructor
    · intro h m hm
      by_contra hne
      exact h m (mem_membersOf_left.2 ⟨hm, hne⟩)
    · intro h m hm
      obtain ⟨hm, hne⟩ := mem_membersOf_left.1 hm
      exact hne (h m hm)
  rw [deletedByWipe, Bool.and_eq_true, hmine, Bool.or_eq_true, decide_eq_true_eq, halone]

theorem mem_organizations_wipe {o : OrganizationRow} :
    o ∈ (wipeOrganizations db userId).db.organizations.rows ↔
      o ∈ db.organizations.rows ∧ deletedByWipe db userId o = false :=
  Table.mem_delete

/-- An organization that is there after the wipe has lost the user's rows. -/
theorem mem_membersOf_wipe {o : OrganizationRow} {m : MemberRow}
    (ho : o ∈ (wipeOrganizations db userId).db.organizations.rows) :
    m ∈ membersOf (wipeOrganizations db userId).db o.id ↔
      m ∈ membersOf db o.id ∧ m.userId ≠ userId := by
  obtain ⟨hmem, hkept⟩ := mem_organizations_wipe.1 ho
  have hnot : o.id ∉ deletedOrgIds db userId := by
    intro hin
    obtain ⟨o', ho', hid⟩ := List.mem_map.1 hin
    obtain ⟨hmem', hdeleted⟩ := List.mem_filter.1 ho'
    rw [Table.eq_of_key hmem' hmem hid, hkept] at hdeleted
    cases hdeleted
  rw [← mem_membersOf_left, mem_membersOf, mem_membersOf, wipeOrganizations, Table.mem_delete,
    List.contains_eq_mem, decide_eq_false_iff_not]
  constructor
  · exact fun ⟨⟨hm, _⟩, horg⟩ => ⟨hm, horg⟩
  · exact fun ⟨hm, horg⟩ => ⟨⟨hm, horg ▸ hnot⟩, horg⟩

/-- A wipe leaves every organization owned exactly when the user has a successor
wherever members stay behind. -/
theorem wipe_owned_iff (h : Owned rule db) :
    Owned rule (wipeOrganizations db userId).db ↔ Succeeded rule db userId := by
  constructor
  · intro howned o ho hpersonal hmine ⟨m, hm, hne⟩
    have hkept : o ∈ (wipeOrganizations db userId).db.organizations.rows := by
      refine mem_organizations_wipe.2 ⟨ho, Bool.eq_false_iff.2 fun hdeleted => ?_⟩
      rcases (deletedByWipe_iff.1 hdeleted).2 with hp | halone
      · rw [hpersonal] at hp
        cases hp
      · exact hne (halone m hm)
    obtain ⟨p, hp, howner⟩ := howned o hkept m ((mem_membersOf_wipe hkept).2 ⟨hm, hne⟩)
    obtain ⟨hp, hother⟩ := (mem_membersOf_wipe hkept).1 hp
    exact ⟨p, hp, hother, howner⟩
  · intro hsucc o hkept m hm
    obtain ⟨ho, hnot⟩ := mem_organizations_wipe.1 hkept
    obtain ⟨hm, hne⟩ := (mem_membersOf_wipe hkept).1 hm
    by_cases hmine : ∃ x ∈ membersOf db o.id, x.userId = userId
    · have hpersonal : isPersonalOrgSlug o.slug = false := by
        refine Bool.eq_false_iff.2 fun hp => ?_
        rw [deletedByWipe_iff.2 ⟨hmine, .inl hp⟩] at hnot
        cases hnot
      obtain ⟨p, hp, hother, howner⟩ := hsucc o ho hpersonal hmine ⟨m, hm, hne⟩
      exact ⟨p, (mem_membersOf_wipe hkept).2 ⟨hp, hother⟩, howner⟩
    · obtain ⟨p, hp, howner⟩ := h o ho m hm
      exact ⟨p, (mem_membersOf_wipe hkept).2 ⟨hp, fun heq => hmine ⟨p, hp, heq⟩⟩, howner⟩

end Wipe

/-! ## Membership changes -/

section Changes

variable {rule : OwnerRule} {s s' : OwnershipState}

/-- A change of one organization's memberships keeps every organization owned. -/
theorem change_owned {orgId : String} {members : Table MemberRow} (h : Owned rule s.orgs)
    (hothers : ∀ other, other ≠ orgId →
      membersOf { s.orgs with members } other = membersOf s.orgs other)
    (hs : s.change rule orgId members = some s') : Owned rule s'.orgs := by
  unfold OwnershipState.change at hs
  split at hs
  · next hkept =>
      cases hs
      intro o ho m hm
      by_cases horg : o.id = orgId
      · rw [← horg] at hkept
        exact ownedOrEmpty_iff.1 hkept m hm
      · have hsame : membersOf { s.orgs with members } o.id = membersOf s.orgs o.id :=
          hothers o.id horg
        show ∃ p ∈ membersOf { s.orgs with members } o.id, rule.owns p = true
        rw [hsame]
        exact h o ho m (hsame ▸ hm)
  · cases hs

theorem membersOf_insert {db : OrgDb} {m : MemberRow} {members : Table MemberRow}
    (hins : db.members.insert m = some members) {other : String}
    (hne : other ≠ m.organizationId) :
    membersOf { db with members } other = membersOf db other := by
  have hrows : members.rows = m :: db.members.rows := by
    unfold Table.insert at hins
    split at hins
    · cases hins
    · cases hins
      rfl
  show members.rows.filter _ = _
  rw [hrows, List.filter_cons_of_neg (by simpa using hne.symm)]
  rfl

theorem membersOf_delete {db : OrgDb} {m : MemberRow} {memberId : String}
    (hfind : db.members.find? memberId = some m) {other : String}
    (hne : other ≠ m.organizationId) :
    membersOf { db with members := db.members.delete fun x => x.id = memberId } other =
      membersOf db other := by
  obtain ⟨hm, hid⟩ := Table.find?_eq_some.1 hfind
  show (db.members.rows.filter _).filter _ = db.members.rows.filter _
  rw [List.filter_filter]
  refine List.filter_congr fun x hx => ?_
  show (decide (x.organizationId = other) && !decide (x.id = memberId)) = _
  by_cases hx' : x.id = memberId
  · rw [Table.eq_of_key hx hm (hx'.trans hid.symm), decide_eq_false hne.symm, Bool.false_and]
  · rw [decide_eq_false hx', Bool.not_false, Bool.and_true]

theorem membersOf_update {db : OrgDb} {m : MemberRow} {memberId role : String}
    (hfind : db.members.find? memberId = some m) {other : String}
    (hne : other ≠ m.organizationId) :
    membersOf { db with members :=
        db.members.update (fun x => x.id = memberId) (roleRow role) fun _ => rfl } other =
      membersOf db other := by
  obtain ⟨hm, hid⟩ := Table.find?_eq_some.1 hfind
  have hsame : ∀ x ∈ db.members.rows, x.organizationId = other →
      (if decide (x.id = memberId) then roleRow role x else x) = x := by
    intro x hx horg
    refine if_neg fun hx' => hne ?_
    rw [← horg, Table.eq_of_key hx hm ((of_decide_eq_true hx').trans hid.symm)]
  show (db.members.rows.map _).filter _ = db.members.rows.filter _
  rw [List.filter_map]
  have horgs : db.members.rows.filter ((fun x => decide (x.organizationId = other)) ∘ fun x =>
      if decide (x.id = memberId) then roleRow role x else x) =
      db.members.rows.filter fun x => x.organizationId = other := by
    refine List.filter_congr fun x _ => ?_
    rw [Function.comp_apply]
    split <;> rfl
  rw [horgs]
  refine (List.map_congr_left fun x hx => ?_).trans (List.map_id _)
  obtain ⟨hx, horg⟩ := List.mem_filter.1 hx
  exact hsame x hx (of_decide_eq_true horg)

end Changes

/-! ## Runs -/

section Run

variable {rule : OwnerRule} {env : StaffEnv} {settings : RgpdSettings} {s s' : OwnershipState}

/-- Whatever wipe the step commits, every organization is owned after it. -/
def OwnedAfterWipe (rule : OwnerRule) (env : StaffEnv) (settings : RgpdSettings)
    (s : OwnershipState) (e : OwnershipEvent) : Prop :=
  ∀ userId, committedWipe s e = some userId →
    ∀ s', ownershipStep rule env settings s e = some s' → Owned rule s'.orgs

/-- The user whose wipe the step commits has a successor wherever members stay
behind. -/
def SucceededAtWipe (rule : OwnerRule) (s : OwnershipState) (e : OwnershipEvent) : Prop :=
  ∀ userId, committedWipe s e = some userId → Succeeded rule s.orgs userId

/-- What the deletion of accounts does to the organizations: the wipe it
commits, if any. -/
theorem orgs_of_account {e : AccountEvent}
    (hs : ownershipStep rule env settings s (.account e) = some s') :
    (committedWipe s (.account e) = none ∧ s'.orgs = s.orgs) ∨
      ∃ userId, committedWipe s (.account e) = some userId ∧
        s'.orgs = (wipeOrganizations s.orgs userId).db := by
  obtain ⟨account, -, rfl⟩ := Option.map_eq_some_iff.1 hs
  cases hwipe : committedWipe s (.account e) with
  | none => exact .inl ⟨rfl, rfl⟩
  | some userId => exact .inr ⟨userId, rfl, rfl⟩

theorem ownership_step {e : OwnershipEvent} (h : Owned rule s.orgs) (hC : SucceededAtWipe rule s e)
    (hs : ownershipStep rule env settings s e = some s') : Owned rule s'.orgs := by
  cases e with
  | account e =>
      rcases orgs_of_account hs with ⟨-, hsame⟩ | ⟨userId, hwipe, hwiped⟩
      · rw [hsame]
        exact h
      · rw [hwiped]
        exact (wipe_owned_iff h).2 (hC userId hwipe)
  | join m =>
      simp only [ownershipStep] at hs
      split at hs
      · obtain ⟨members, hins, hchange⟩ := Option.bind_eq_some_iff.1 hs
        exact change_owned h (fun other hne => membersOf_insert hins hne) hchange
      · cases hs
  | leave memberId =>
      simp only [ownershipStep] at hs
      split at hs
      · cases hs
      · next m hfind =>
          exact change_owned h (fun other hne => membersOf_delete hfind hne) hs
  | changeRole memberId role =>
      simp only [ownershipStep] at hs
      split at hs
      · cases hs
      · next m hfind =>
          exact change_owned h (fun other hne => membersOf_update hfind hne) hs

/-- Only a wipe of the step can say what the organizations are after it. -/
theorem ownedAfterWipe_iff {e : OwnershipEvent} (h : Owned rule s.orgs)
    (hdone : ∀ userId, committedWipe s e = some userId →
      ∃ s', ownershipStep rule env settings s e = some s') :
    OwnedAfterWipe rule env settings s e ↔ SucceededAtWipe rule s e := by
  constructor
  · intro hafter userId hwipe
    obtain ⟨s', hs⟩ := hdone userId hwipe
    have howned := hafter userId hwipe s' hs
    cases e with
    | account e =>
        rcases orgs_of_account hs with ⟨hnone, -⟩ | ⟨other, hsome, hwiped⟩
        · rw [hnone] at hwipe
          cases hwipe
        · rw [hsome] at hwipe
          cases hwipe
          rw [hwiped] at howned
          exact (wipe_owned_iff h).1 howned
    | join m => cases hwipe
    | leave memberId => cases hwipe
    | changeRole memberId role => cases hwipe
  · intro hsucc userId hwipe s' hs
    exact ownership_step h hsucc hs

/-- A wipe that is read is always carried out. -/
theorem committedWipe_done {e : OwnershipEvent} {userId : String}
    (hwipe : committedWipe s e = some userId) :
    ∃ s', ownershipStep rule env settings s e = some s' := by
  cases e with
  | account e =>
      cases e with
      | wipe i =>
          simp only [committedWipe] at hwipe
          cases hsweep : s.account.sweeps[i]? with
          | none =>
              rw [hsweep] at hwipe
              cases hwipe
          | some sweep =>
              rw [hsweep, Option.bind_some] at hwipe
              cases hreading : sweep.reading with
              | none =>
                  rw [hreading] at hwipe
                  cases hwipe
              | some read =>
                  have hstep : ∃ account, accountStep env settings s.account
                      (foundBlocking s.orgs (.wipe i)) = some account := by
                    simp only [foundBlocking, accountStep, hsweep, hreading,
                      Option.bind_eq_bind, Option.bind_some]
                    exact ⟨_, rfl⟩
                  obtain ⟨account, haccount⟩ := hstep
                  simp only [ownershipStep, haccount]
                  exact ⟨_, rfl⟩
      | _ => cases hwipe
  | join m => cases hwipe
  | leave memberId => cases hwipe
  | changeRole memberId role => cases hwipe

/-- However an owner is told, in every run from a state where every organization
is owned: each committed wipe leaves them so exactly when, at each of them, the
user has a successor wherever members stay behind. -/
theorem owned_after_wipes_iff {es : List OwnershipEvent} (h : Owned rule s.orgs) :
    Meets (ownershipStep rule env settings) (OwnedAfterWipe rule env settings) s es ↔
      Meets (ownershipStep rule env settings) (SucceededAtWipe rule) s es := by
  have hiff : ∀ x e, Owned rule x.orgs →
      (OwnedAfterWipe rule env settings x e ↔ SucceededAtWipe rule x e) :=
    fun _ _ hx => ownedAfterWipe_iff hx fun _ => committedWipe_done
  have hstep : ∀ x e y, Owned rule x.orgs → SucceededAtWipe rule x e →
      ownershipStep rule env settings x e = some y → Owned rule y.orgs :=
    fun _ _ _ hx hC hs => ownership_step hx hC hs
  exact meets_iff hiff hstep h

end Run

/-! ## Two owners ask -/

def acme : OrgDb where
  organizations := ⟨[⟨"acme", "Acme", "acme"⟩], by decide⟩
  members :=
    ⟨[⟨"m1", "acme", "ada", "owner"⟩, ⟨"m2", "acme", "bob", "owner"⟩,
      ⟨"m3", "acme", "cyd", "member"⟩], by decide⟩

def acmeUsers : StaffDb where
  users := ⟨[activeUser "ada", activeUser "bob", activeUser "cyd"], by decide +kernel⟩
  members := Table.empty
  overrides := Table.empty

def acmeState : OwnershipState := ⟨accountsAt acmeUsers, acme⟩

/-- The user asks, with the right password, and the request is committed. -/
def asks (userId : String) : List OwnershipEvent :=
  [.account (.beginRequest userId ⟨[], none, some true⟩), .account (.commitRequest 0)]

/-- A sweep a grace period later, which reads and wipes one after the other. -/
def sweepsUp (userIds : List String) : List OwnershipEvent :=
  [.account (.wait (day * 30)), .account (.startSweep userIds 10)] ++
    userIds.flatMap fun _ => [.account (.readState 0), .account (.wipe 0)]

theorem owned_iff {rule : OwnerRule} {db : OrgDb} :
    Owned rule db ↔ (db.organizations.rows.all fun o => ownedOrEmpty rule db o.id) = true := by
  rw [List.all_eq_true]
  exact ⟨fun h o ho => ownedOrEmpty_iff.2 (h o ho), fun h o ho => ownedOrEmpty_iff.1 (h o ho)⟩

instance (rule : OwnerRule) (db : OrgDb) (userId : String) : Decidable (Succeeded rule db userId) :=
  inferInstanceAs (Decidable (∀ o ∈ db.organizations.rows, isPersonalOrgSlug o.slug = false →
    (∃ m ∈ membersOf db o.id, m.userId = userId) →
    (∃ m ∈ membersOf db o.id, m.userId ≠ userId) →
    ∃ m ∈ membersOf db o.id, m.userId ≠ userId ∧ rule.owns m = true))

theorem succeededAtWipe_of_test {rule : OwnerRule} {s : OwnershipState} {e : OwnershipEvent}
    (h : ((committedWipe s e).all fun userId => decide (Succeeded rule s.orgs userId)) = true) :
    SucceededAtWipe rule s e := by
  intro userId hwipe
  rw [hwipe] at h
  exact of_decide_eq_true h

/-- One of the owners asks and goes, while the other stays; then the member
leaves, and the other owner asks and goes as well. -/
theorem owned_after_wipes_acme :
    Meets (ownershipStep .exact rootListed ⟨30⟩) (OwnedAfterWipe .exact rootListed ⟨30⟩) acmeState
      (asks "ada" ++ sweepsUp ["ada"] ++ [.leave "m3"] ++ asks "bob" ++ sweepsUp ["bob"]) := by
  have howned : Owned .exact acmeState.orgs := owned_iff.2 (by decide)
  have hsucceeded : ∀ s e, ((committedWipe s e).all fun userId =>
      decide (Succeeded .exact s.orgs userId)) = true → SucceededAtWipe .exact s e :=
    fun _ _ => succeededAtWipe_of_test
  exact (owned_after_wipes_iff howned).2 (meets_of_passes hsucceeded (by decide))

/-- Both owners ask while there are two of them, the first is wiped, and the
sweep has read the second. -/
def bothAsked : List OwnershipEvent :=
  asks "ada" ++ asks "bob" ++
    [.account (.wait (day * 30)), .account (.startSweep ["ada", "bob"] 10),
      .account (.readState 0), .account (.wipe 0), .account (.readState 0)]

theorem both_owners_wiped :
    ¬ ∀ (env : StaffEnv) (settings : RgpdSettings) (s : OwnershipState)
      (es : List OwnershipEvent), Owned .exact s.orgs →
      Meets (ownershipStep .exact env settings) (OwnedAfterWipe .exact env settings) s es := by
  intro hall
  have hmeets := hall rootListed ⟨30⟩ acmeState (bothAsked ++ [.account (.wipe 0)])
    (owned_iff.2 (by decide))
  have hrun : ((exec (ownershipStep .exact rootListed ⟨30⟩) acmeState bothAsked).bind fun m =>
      (ownershipStep .exact rootListed ⟨30⟩ m (.account (.wipe 0))).map fun t =>
        (committedWipe m (.account (.wipe 0)),
          t.orgs.organizations.rows.all fun o => ownedOrEmpty .exact t.orgs o.id)) =
      some (some "bob", false) := by decide
  obtain ⟨m, hm, hlast⟩ := Option.bind_eq_some_iff.1 hrun
  obtain ⟨t, ht, hfound⟩ := Option.map_eq_some_iff.1 hlast
  obtain ⟨hwipe, hbroken⟩ := Prod.mk.inj hfound
  have howned := (meets_append hmeets hm).1 "bob" hwipe t ht
  rw [owned_iff.1 howned] at hbroken
  cases hbroken

end CleanStack.Rgpd
