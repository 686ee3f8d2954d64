import CleanStack.ApiToken.Tokens

/-!
# Tokens and memberships

What a departure asks for is that the tokens of a membership go when it ends.
The handler knows a user and an organization, and takes whatever tokens the two
have when it runs. So it takes too much when the user has come back and it runs
late or once more, and it takes too little when a request that passed the check
before inserts its token after.

Where neither happens the tokens follow the memberships: a token outlives the
membership it was inserted in only while a departure is still to be handled.
-/

namespace CleanStack.ApiToken

open CleanStack.Lib CleanStack.Drizzle
open CleanStack.Rgpd (MemberRow)

/-- The token was inserted in the membership its user is in. -/
def Current (s : TokenState) (tok : ApiTokenRow) (organizationId : String) : Prop :=
  isMember s.members tok.userId organizationId = true ∧
    s.insertedIn tok.id = some (s.memberships tok.userId organizationId)

/-- Once every departure has been handled the tokens left are those of the
memberships there are, and none of these has been taken for a lost one. -/
structure TokensFollow (s : TokenState) : Prop where
  gone : (∀ d ∈ s.departures, d.handled = true) → ∀ tok ∈ s.tokens.rows, ∀ o,
    tok.organizationId = some o → tok.revokedAt = none → Current s tok o
  spared : ∀ tok ∈ s.tokens.rows, ∀ o, tok.organizationId = some o → Current s tok o →
    tok.revokedReason ≠ some .membershipLost

/-- A departure of the user from the organization that nobody has handled yet. -/
def Leaving (s : TokenState) (userId organizationId : String) : Prop :=
  ∃ d ∈ s.departures, d.userId = userId ∧ d.organizationId = organizationId ∧ d.handled = false

/-- A token is inserted for a member, or for one whose departure is still to be
handled; and a handler runs while the user has no token of the membership the
user is in. -/
def InTime (s : TokenState) : TokenEvent → Prop
  | .create k _ _ => ∀ request, s.requests[k]? = some request → ∀ o,
      request.organizationId = some o →
      isMember s.members request.userId o = true ∨ Leaving s request.userId o
  | .handle i _ => ∀ d, s.departures[i]? = some d → ∀ tok ∈ s.tokens.rows,
      ofMembership d.userId d.organizationId tok = true → ¬ Current s tok d.organizationId
  | _ => True

structure Followed (s : TokenState) : Prop where
  leaving : ∀ tok ∈ s.tokens.rows, ∀ o, tok.organizationId = some o → tok.revokedAt = none →
    Current s tok o ∨ Leaving s tok.userId o
  spared : ∀ tok ∈ s.tokens.rows, ∀ o, tok.organizationId = some o → Current s tok o →
    tok.revokedReason ≠ some .membershipLost
  past : ∀ tok ∈ s.tokens.rows, ∀ o, tok.organizationId = some o → ∀ n,
    s.insertedIn tok.id = some n → n ≤ s.memberships tok.userId o

section Step

variable {maxExpiryDays : Nat} {s t : TokenState} {e : TokenEvent} {tok : ApiTokenRow} {o : String}

theorem Followed.follow (hs : Followed s) : TokensFollow s := by
  refine ⟨fun hall tok htok o ho hlive => ?_, hs.spared⟩
  rcases hs.leaving tok htok o ho hlive with hcurrent | ⟨d, hd, -, -, hnot⟩
  · exact hcurrent
  · rw [hall d hd] at hnot
    cases hnot

theorem isMember_insert {members members' : Table MemberRow} {row : MemberRow} {userId : String}
    (h : members.insert row = some members') :
    isMember members' userId o = true ↔
      (row.userId = userId ∧ row.organizationId = o) ∨ isMember members userId o = true := by
  simp only [isMember, List.any_eq_true, Bool.and_eq_true, decide_eq_true_eq]
  constructor
  · intro ⟨m, hm, hu, ho⟩
    rcases (Table.mem_insert h).1 hm with rfl | hold
    · exact .inl ⟨hu, ho⟩
    · exact .inr ⟨m, hold, hu, ho⟩
  · intro hor
    rcases hor with ⟨hu, ho⟩ | ⟨m, hm, hu, ho⟩
    · exact ⟨row, (Table.mem_insert h).2 (.inl rfl), hu, ho⟩
    · exact ⟨m, (Table.mem_insert h).2 (.inr hm), hu, ho⟩

theorem memberships_le_joined {userId organizationId u : String} :
    s.memberships u o ≤ joined s userId organizationId u o := by
  unfold joined
  split
  · exact Nat.le_succ _
  · exact Nat.le_refl _

/-- Whoever is a member stays in the same membership when somebody joins. -/
theorem joined_of_isMember {userId organizationId u : String}
    (h : isMember s.members u o = true) :
    joined s userId organizationId u o = s.memberships u o := by
  unfold joined
  rw [if_neg]
  exact fun ⟨_, _, hnot⟩ => hnot h

theorem joined_of_not_isMember {userId organizationId u : String} (hu : userId = u)
    (ho : organizationId = o) (h : ¬ isMember s.members u o = true) :
    joined s userId organizationId u o = s.memberships u o + 1 := by
  unfold joined
  rw [if_pos ⟨hu.symm, ho.symm, h⟩]

theorem Followed.join (hs : Followed s) {row : MemberRow} {members : Table MemberRow}
    (hins : s.members.insert row = some members) :
    Followed { s with members, memberships := joined s row.userId row.organizationId } := by
  -- A token of the membership there is now was one of the membership there was.
  have hback : ∀ tok ∈ s.tokens.rows, ∀ o, tok.organizationId = some o →
      Current { s with members, memberships := joined s row.userId row.organizationId } tok o →
      Current s tok o := by
    intro tok htok o ho ⟨hmember, hin⟩
    by_cases hold : isMember s.members tok.userId o = true
    · exact ⟨hold, hin.trans (congrArg some (joined_of_isMember hold))⟩
    · rcases (isMember_insert hins).1 hmember with ⟨hu, hro⟩ | hmem
      · have hmore := joined_of_not_isMember hu hro hold
        have hle := hs.past tok htok o ho _ (hin.trans (congrArg some hmore))
        omega
      · exact absurd hmem hold
  have hforth : ∀ tok o, Current s tok o →
      Current { s with members, memberships := joined s row.userId row.organizationId } tok o := by
    intro tok o ⟨hmember, hin⟩
    exact ⟨(isMember_insert hins).2 (.inr hmember),
      hin.trans (congrArg some (joined_of_isMember hmember).symm)⟩
  refine ⟨fun tok htok o ho hlive => ?_, fun tok htok o ho hcurrent => ?_,
    fun tok htok o ho n hn => ?_⟩
  · rcases hs.leaving tok htok o ho hlive with hcurrent | hleaving
    · exact .inl (hforth tok o hcurrent)
    · exact .inr hleaving
  · exact hs.spared tok htok o ho (hback tok htok o ho hcurrent)
  · exact Nat.le_trans (hs.past tok htok o ho n hn) memberships_le_joined

theorem Followed.leave (hs : Followed s) {memberId actorUserId : String} {row : MemberRow}
    (hrow : s.members.find? memberId = some row) :
    Followed { s with
      members := s.members.delete fun m => m.id = memberId
      departures := s.departures ++
        [⟨memberId, row.userId, row.organizationId, actorUserId, false⟩] } := by
  have hfewer : ∀ u o, isMember (s.members.delete fun m => m.id = memberId) u o = true →
      isMember s.members u o = true := by
    intro u o hmember
    obtain ⟨m, hm, hp⟩ := List.any_eq_true.1 hmember
    exact List.any_eq_true.2 ⟨m, (Table.mem_delete.1 hm).1, hp⟩
  refine ⟨fun tok htok o ho hlive => ?_, fun tok htok o ho hcurrent => ?_, hs.past⟩
  · rcases hs.leaving tok htok o ho hlive with ⟨hmember, hin⟩ | ⟨d, hd, hleaves⟩
    · by_cases hstill : isMember (s.members.delete fun m => m.id = memberId) tok.userId o = true
      · exact .inl ⟨hstill, hin⟩
      · -- The only membership left is the one that goes.
        obtain ⟨m, hm, hp⟩ := List.any_eq_true.1 hmember
        rw [Bool.and_eq_true, decide_eq_true_eq, decide_eq_true_eq] at hp
        have hgone : m.id = memberId := by
          by_contra hne
          refine hstill (List.any_eq_true.2 ⟨m, Table.mem_delete.2 ⟨hm, decide_eq_false hne⟩, ?_⟩)
          rw [Bool.and_eq_true, decide_eq_true_eq, decide_eq_true_eq]
          exact hp
        have hsame : m = row := Option.some.inj
          ((Table.find?_eq_some.2 ⟨hm, hgone⟩).symm.trans hrow)
        subst hsame
        exact .inr ⟨_, List.mem_append_right _ (List.mem_singleton_self _), hp.1, hp.2, rfl⟩
    · exact .inr ⟨d, List.mem_append_left _ hd, hleaves⟩
  · exact hs.spared tok htok o ho ⟨hfewer _ _ hcurrent.1, hcurrent.2⟩

theorem Followed.create (hs : Followed s) {row : ApiTokenRow} {tokens : ApiTokenTable}
    (hins : s.tokens.insert row = some tokens) (hreason : row.revokedReason = none)
    (hcan : ∀ o, row.organizationId = some o →
      isMember s.members row.userId o = true ∨ Leaving s row.userId o) :
    Followed { s with
      tokens
      insertedIn := fun id =>
        if id = row.id then row.organizationId.bind fun o => s.membership row.userId o
        else s.insertedIn id } := by
  have hsplit : ∀ tok ∈ tokens.rows, tok = row ∨ tok ∈ s.tokens.rows ∧ tok.id ≠ row.id := by
    intro tok htok
    rcases (Table.mem_insert hins).1 htok with hnew | hold
    · exact .inl hnew
    · exact .inr ⟨hold, Table.insert_fresh hins tok hold⟩
  refine ⟨fun tok htok o ho hlive => ?_, fun tok htok o ho hcurrent => ?_,
    fun tok htok o ho n hn => ?_⟩
  · rcases hsplit tok htok with rfl | ⟨hold, hne⟩
    · rcases hcan o ho with hmember | hleaving
      · refine .inl ⟨hmember, ?_⟩
        simp [TokenState.membership, ho, hmember]
      · exact .inr hleaving
    · rcases hs.leaving tok hold o ho hlive with ⟨hmember, hin⟩ | hleaving
      · exact .inl ⟨hmember, (if_neg hne).trans hin⟩
      · exact .inr hleaving
  · rcases hsplit tok htok with rfl | ⟨hold, hne⟩
    · rw [hreason]
      nofun
    · exact hs.spared tok hold o ho ⟨hcurrent.1, (if_neg hne).symm.trans hcurrent.2⟩
  · rcases hsplit tok htok with rfl | ⟨hold, hne⟩
    · simp only [if_true, ho, Option.bind_some, TokenState.membership] at hn
      split at hn
      · cases hn
        exact Nat.le_refl _
      · cases hn
    · exact hs.past tok hold o ho n ((if_neg hne).symm.trans hn)

/-- A statement that revokes rows, none of them of the present membership unless
for another reason, or else none that was left without a departure. -/
theorem Followed.update (hs : Followed s) {p : ApiTokenRow → Bool} {now : Time}
    {reason : ApiTokenRevokedReason} {departures : List Departure}
    {revocations : List TokenRevocation}
    (hspared : ∀ tok ∈ s.tokens.rows, p tok = true → ∀ o, tok.organizationId = some o →
      Current s tok o → reason ≠ .membershipLost)
    (hleft : ∀ tok ∈ s.tokens.rows, p tok = false → tok.revokedAt = none →
      ∀ o, tok.organizationId = some o → ∀ d ∈ s.departures, d.userId = tok.userId →
        d.organizationId = o → d.handled = false → d ∈ departures) :
    Followed { s with
      tokens := s.tokens.update p (revokedSet now reason) (revokedSet_id now reason)
      departures
      revocations } := by
  have hback : ∀ tok' ∈ (s.tokens.update p (revokedSet now reason)
      (revokedSet_id now reason)).rows, ∃ tok ∈ s.tokens.rows,
        (p tok = true ∧ tok' = revokedSet now reason tok) ∨ (p tok = false ∧ tok' = tok) := by
    intro tok' htok'
    obtain ⟨tok, htok, rfl⟩ := (Table.mem_update (revokedSet_id now reason)).1 htok'
    refine ⟨tok, htok, ?_⟩
    cases p tok with
    | true => exact .inl ⟨rfl, rfl⟩
    | false => exact .inr ⟨rfl, rfl⟩
  refine ⟨fun tok' htok' o ho hlive => ?_, fun tok' htok' o ho hcurrent => ?_,
    fun tok' htok' o ho n hn => ?_⟩
  · obtain ⟨tok, htok, ⟨-, rfl⟩ | ⟨hp, rfl⟩⟩ := hback tok' htok'
    · cases hlive
    · rcases hs.leaving tok' htok o ho hlive with hcurrent | ⟨d, hd, hu, hdo, hnot⟩
      · exact .inl hcurrent
      · exact .inr ⟨d, hleft tok' htok hp hlive o ho d hd hu hdo hnot, hu, hdo, hnot⟩
  · obtain ⟨tok, htok, ⟨hp, rfl⟩ | ⟨-, rfl⟩⟩ := hback tok' htok'
    · exact fun h => hspared tok htok hp o ho hcurrent (Option.some.inj h)
    · exact hs.spared tok' htok o ho hcurrent
  · obtain ⟨tok, htok, ⟨-, rfl⟩ | ⟨-, rfl⟩⟩ := hback tok' htok'
    · exact hs.past tok htok o ho n hn
    · exact hs.past tok' htok o ho n hn

theorem ofMembership_iff {userId organizationId : String} :
    ofMembership userId organizationId tok = true ↔
      tok.userId = userId ∧ tok.organizationId = some organizationId ∧ tok.revokedAt = none := by
  simp [ofMembership, and_assoc]

theorem Followed.handle (hs : Followed s) {i : Nat} {now : Time} {d : Departure}
    {revocations : List TokenRevocation} (hd : s.departures[i]? = some d)
    (hcan : ∀ tok ∈ s.tokens.rows, ofMembership d.userId d.organizationId tok = true →
      ¬ Current s tok d.organizationId) :
    Followed { s with
      tokens := (revokeAllForMembership s.tokens now d.userId d.organizationId).1
      departures := s.departures.set i { d with handled := true }
      revocations } := by
  refine hs.update (fun tok htok hp o ho hcurrent => ?_)
    fun tok _ hp hlive o ho d' hd' hu hdo _ => ?_
  · obtain ⟨-, hto, -⟩ := ofMembership_iff.1 hp
    rw [hto] at ho
    cases ho
    exact absurd hcurrent (hcan tok htok hp)
  · -- The departure that is handled has none of its tokens left.
    obtain ⟨j, hj⟩ := List.mem_iff_getElem?.1 hd'
    by_cases hij : i = j
    · subst hij
      rw [hd] at hj
      cases hj
      have hall := ofMembership_iff.2 ⟨hu.symm, ho.trans (congrArg some hdo.symm), hlive⟩
      rw [hp] at hall
      cases hall
    · refine List.mem_iff_getElem?.2 ⟨j, ?_⟩
      rw [List.getElem?_set_ne hij]
      exact hj

theorem Followed.revoke (hs : Followed s) {now : Time} {tokenId : String}
    {reason : ApiTokenRevokedReason} (hreason : reason ≠ .membershipLost) :
    Followed { s with tokens := revokeToken s.tokens now tokenId reason } :=
  hs.update (fun _ _ _ _ _ _ => hreason) fun _ _ _ _ _ _ _ hd _ _ _ => hd

theorem Followed.step (hs : Followed s) (hcond : InTime s e)
    (h : tokenStep maxExpiryDays s e = some t) : Followed t := by
  cases e with
  | join row =>
      obtain ⟨members, hins, rfl⟩ := Option.map_eq_some_iff.1 h
      exact hs.join hins
  | leave memberId actorUserId =>
      obtain ⟨row, hrow, rfl⟩ := Option.map_eq_some_iff.1 h
      exact hs.leave hrow
  | request userId activeOrgId organizationId =>
      unfold tokenStep at h
      dsimp only at h
      split at h
      · cases h
        exact ⟨hs.leaving, hs.spared, hs.past⟩
      · cases h
        exact hs
  | create k tokenId expiresInDays =>
      obtain ⟨request, hrequest, h⟩ := Option.bind_eq_some_iff.1 h
      split at h
      · cases h
        exact hs
      · next row hcreate =>
          obtain ⟨tokens, hins, rfl⟩ := Option.map_eq_some_iff.1 h
          unfold createToken at hcreate
          split at hcreate
          · cases hcreate
          · cases hcreate
            exact hs.create hins rfl (hcond request hrequest)
  | revoke now tokenId reason =>
      unfold tokenStep at h
      dsimp only at h
      split at h
      · cases h
      · next hreason =>
          cases h
          exact hs.revoke hreason
  | handle i now =>
      obtain ⟨d, hd, rfl⟩ := Option.map_eq_some_iff.1 h
      exact hs.handle hd (hcond d hd)

end Step

theorem tokens_follow {maxExpiryDays : Nat} {s₀ s : TokenState} {es : List TokenEvent}
    (hnone : s₀.tokens.rows = []) (hmeets : Meets (tokenStep maxExpiryDays) InTime s₀ es)
    (h : exec (tokenStep maxExpiryDays) s₀ es = some s) : TokensFollow s := by
  have h₀ : Followed s₀ := by
    refine ⟨fun tok htok => ?_, fun tok htok => ?_, fun tok htok => ?_⟩
    all_goals
      rw [hnone] at htok
      cases htok
  have hs : Followed s := runs_inv_meets (fun _ _ _ hm hcond hstep => hm.step hcond hstep) h₀
    hmeets h
  exact hs.follow

/-! ## Runs on fixed inputs -/

def noTokens : TokenState :=
  { members := Table.empty
    tokens := Table.empty
    departures := []
    requests := []
    revocations := []
    memberships := fun _ _ => 0
    insertedIn := fun _ => none }

def adaJoins (memberId : String) : TokenEvent := .join ⟨memberId, "acme", "ada", "admin"⟩

def adaRequests : TokenEvent := .request "ada" (some "acme") (some "acme")

/-- Ada leaves, comes back and creates a token; then her departure is handled for
the second time. -/
def handledTwice : List TokenEvent :=
  [adaJoins "m1", .leave "m1" "bob", .handle 0 10, adaJoins "m2", adaRequests,
    .create 0 "t1" none, .handle 0 20]

/-- A request passes the check, and by the time of the insertion Ada has left and
her departure has been handled. -/
def createdAfter : List TokenEvent :=
  [adaJoins "m1", adaRequests, .leave "m1" "bob", .handle 0 10, .create 0 "t1" none]

theorem tokens_part_ways :
    (∃ s, exec (tokenStep 365) noTokens handledTwice = some s ∧ ¬ TokensFollow s) ∧
      ∃ s, exec (tokenStep 365) noTokens createdAfter = some s ∧ ¬ TokensFollow s := by
  have htwice : (exec (tokenStep 365) noTokens handledTwice).map
      (fun s => (s.tokens.find? "t1", isMember s.members "ada" "acme", s.insertedIn "t1",
        s.memberships "ada" "acme")) =
        some (some ⟨"t1", "ada", some "acme", some 20, some .membershipLost⟩, true, some 2, 2) := by
    decide
  have hafter : (exec (tokenStep 365) noTokens createdAfter).map
      (fun s => (s.tokens.find? "t1", isMember s.members "ada" "acme",
        s.departures.all Departure.handled)) =
        some (some ⟨"t1", "ada", some "acme", none, none⟩, false, true) := by
    decide
  obtain ⟨s, hs, hview⟩ := Option.map_eq_some_iff.1 htwice
  obtain ⟨s', hs', hview'⟩ := Option.map_eq_some_iff.1 hafter
  simp only [Prod.mk.injEq] at hview hview'
  obtain ⟨htok, hmember, hin, hcount⟩ := hview
  obtain ⟨htok', hnot, hall⟩ := hview'
  refine ⟨⟨s, hs, fun hfollow => ?_⟩, s', hs', fun hfollow => ?_⟩
  · exact hfollow.spared _ (Table.find?_eq_some.1 htok).1 "acme" rfl
      ⟨hmember, hin.trans (congrArg some hcount.symm)⟩ rfl
  · have hcurrent := hfollow.gone (List.all_eq_true.1 hall) _ (Table.find?_eq_some.1 htok').1
      "acme" rfl rfl
    rw [hcurrent.1] at hnot
    cases hnot

/-- A test that is enough for `InTime`. -/
def keepsTime (s : TokenState) : TokenEvent → Bool
  | .create k _ _ => s.requests[k]?.all fun request =>
      request.organizationId.all fun o => isMember s.members request.userId o
  | .handle i _ => s.departures[i]?.all fun d => s.tokens.rows.all fun tok =>
      !ofMembership d.userId d.organizationId tok || !isMember s.members tok.userId d.organizationId
  | _ => true

theorem inTime_of_keepsTime (s : TokenState) (e : TokenEvent) (h : keepsTime s e = true) :
    InTime s e := by
  cases e with
  | create k tokenId expiresInDays =>
      intro request hrequest o ho
      rw [keepsTime, hrequest, Option.all_some, ho, Option.all_some] at h
      exact .inl h
  | handle i now =>
      intro d hd tok htok hof hcurrent
      rw [keepsTime, hd, Option.all_some] at h
      have htest := List.all_eq_true.1 h tok htok
      rw [hof, hcurrent.1] at htest
      cases htest
  | _ => trivial

/-- Ada leaves with a token, and comes back once it is gone. -/
def adaReturns : List TokenEvent :=
  [adaJoins "m1", adaRequests, .create 0 "t1" none, .leave "m1" "bob", .handle 0 10, .handle 0 20,
    adaJoins "m2", adaRequests, .create 1 "t2" (some 30)]

theorem tokens_follow_ada : ∃ s, exec (tokenStep 365) noTokens adaReturns = some s ∧
    s.tokens.rows = [⟨"t2", "ada", some "acme", none, none⟩,
      ⟨"t1", "ada", some "acme", some 10, some .membershipLost⟩] ∧ TokensFollow s := by
  have hrun : (exec (tokenStep 365) noTokens adaReturns).map (fun s => s.tokens.rows) =
      some [⟨"t2", "ada", some "acme", none, none⟩,
        ⟨"t1", "ada", some "acme", some 10, some .membershipLost⟩] := by decide
  obtain ⟨s, hs, hrows⟩ := Option.map_eq_some_iff.1 hrun
  exact ⟨s, hs, hrows,
    tokens_follow rfl (meets_of_passes inTime_of_keepsTime (by decide)) hs⟩

end CleanStack.ApiToken
