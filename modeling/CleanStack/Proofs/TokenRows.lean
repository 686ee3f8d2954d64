import CleanStack.ApiToken.Bearer

/-!
# What a step does to the rows of tokens

Whatever step is taken, the table of tokens sees one statement of five, or
none, and with it the two logs of the outbox. `bearer_moves` says which. What a
revocation may claim of a row is known of the record it read: whose token it is
and of which organization is never written again, so a record read long ago
still tells the truth about it.

The rows by which tokens follow memberships are these, without the columns that
nothing there reads; `rows_move` says what a step is to them.
-/

namespace CleanStack.ApiToken

open CleanStack.Lib CleanStack.Kit

variable {hmacToken : String → JsString → String}

/-! ## What a row never loses -/

/-- The columns no statement writes. -/
def SameFacts (r r' : ApiTokenRecord) : Prop :=
  r'.userId = r.userId ∧ r'.organizationId = r.organizationId ∧ r'.scopes = r.scopes ∧
    r'.expiresAt = r.expiresAt

/-- A row after a statement. -/
structure Keeps (r r' : ApiTokenRecord) : Prop where
  facts : SameFacts r r'
  revoked : r.revokedAt.isSome → r'.revokedAt = r.revokedAt ∧ r'.revokedReason = r.revokedReason

theorem SameFacts.refl (r : ApiTokenRecord) : SameFacts r r := ⟨rfl, rfl, rfl, rfl⟩

theorem SameFacts.trans {a b c : ApiTokenRecord} (h : SameFacts a b) (h' : SameFacts b c) :
    SameFacts a c :=
  ⟨h'.1.trans h.1, h'.2.1.trans h.2.1, h'.2.2.1.trans h.2.2.1, h'.2.2.2.trans h.2.2.2⟩

theorem Keeps.refl (r : ApiTokenRecord) : Keeps r r := ⟨SameFacts.refl r, fun _ => ⟨rfl, rfl⟩⟩

/-- An update that keeps the row it is applied to keeps every row. -/
theorem keeps_update {t : ApiTokenRecords} {p : ApiTokenRecord → Bool}
    {f : ApiTokenRecord → ApiTokenRecord} (hf : ∀ r, Keyed.key (f r) = Keyed.key r)
    (hkeeps : ∀ r, p r = true → Keeps r (f r)) {id : String} {r : ApiTokenRecord}
    (hr : t.find? id = some r) : ∃ r', (t.update p f hf).find? id = some r' ∧ Keeps r r' := by
  rw [Table.find?_update, hr]
  refine ⟨_, rfl, ?_⟩
  dsimp only
  split
  · next hp => exact hkeeps r hp
  · exact Keeps.refl r

theorem keeps_rehash {t : ApiTokenRecords} {id : String} {hmac : String} {version : Nat}
    {other : String} {r : ApiTokenRecord} (hr : t.find? other = some r) :
    ∃ r', (rehash t id hmac version).find? other = some r' ∧ Keeps r r' := by
  unfold rehash
  split
  · exact ⟨r, hr, Keeps.refl r⟩
  · have hkeeps : ∀ r, Keeps r (rehashedRecord hmac version r) :=
      fun r => ⟨⟨rfl, rfl, rfl, rfl⟩, fun _ => ⟨rfl, rfl⟩⟩
    exact keeps_update (key_rehashedRecord hmac version) (fun r _ => hkeeps r) hr

/-! ## The record of a revocation under way -/

/-- A row with the id of the record, and the same facts. -/
def Tells (t : ApiTokenRecords) (record : ApiTokenRecord) : Prop :=
  ∃ r, t.find? record.id = some r ∧ SameFacts record r

/-- What has been read for a revocation is true of the row. -/
structure Known (s : BearerState) : Prop where
  entries : ∀ entry ∈ s.entries, ∀ record, entry.phase = .revoke record → Tells s.tokens record
  removals : ∀ r ∈ s.removals, ∀ record, r.phase = .revoke record → Tells s.tokens record

theorem tells_of_find {t : ApiTokenRecords} {record : ApiTokenRecord}
    (h : t.find? record.id = some record) : Tells t record :=
  ⟨record, h, SameFacts.refl record⟩

theorem find?_of_findByHmac {t : ApiTokenRecords} {hmac : String} {record : ApiTokenRecord}
    (h : findByHmac t hmac = some record) :
    t.find? record.id = some record ∧ record.tokenHmac = hmac := by
  have hmem := List.mem_of_find?_eq_some h
  exact ⟨Table.find?_eq_some.2 ⟨hmem, rfl⟩, by simpa using List.find?_some h⟩

theorem find?_of_owner {t : ApiTokenRecords} {id : String} {owner : TokenOwner}
    {record : ApiTokenRecord} (h : findByIdForOwner t id owner = some record) :
    t.find? record.id = some record := by
  obtain ⟨hfind, -⟩ := Option.filter_eq_some_iff.1 h
  have hid : record.id = id := (Table.find?_eq_some.1 hfind).2
  rw [hid]
  exact hfind

theorem entryPhase_revoke {t : ApiTokenRecords} {entry : LeakEntry} {record : ApiTokenRecord}
    (h : entryPhase hmacToken t entry = some (.revoke record)) :
    t.find? record.id = some record := by
  have hjudge : ∀ found, judgeRecord found = .revoke record → found = record := by
    intro found hfound
    unfold judgeRecord at hfound
    split at hfound
    · cases hfound
    · exact LeakPhase.revoke.inj hfound
  unfold entryPhase at h
  split at h
  · cases hfind : findByHmac t (hmacToken entry.config.pepper entry.token) with
    | none =>
        rw [hfind] at h
        cases hprevious : entry.config.pepperPrevious with
        | none =>
            rw [hprevious] at h
            cases h
        | some pepper =>
            rw [hprevious] at h
            cases h
    | some found =>
        rw [hfind] at h
        rw [← hjudge found (Option.some.inj h)]
        exact (find?_of_findByHmac hfind).1
  · split at h
    · next found hfind =>
        rw [← hjudge found (Option.some.inj h)]
        exact (find?_of_findByHmac hfind).1
    · cases h
  · cases h

theorem removalFound_revoke {owner : TokenOwner} {found : Option ApiTokenRecord}
    {record : ApiTokenRecord} (h : removalFound owner found = .revoke record) :
    found = some record := by
  unfold removalFound at h
  split at h
  · cases h
  · split at h
    · cases h
    · split at h
      · cases h
      · rw [RemovalPhase.revoke.inj h]

/-! ## Moves -/

/-- What an event says of a token, its actor apart. -/
def RevokedEvent.about (e : RevokedEvent) : String × Option String × ApiTokenRevokedReason :=
  (e.userId, e.organizationId, e.reason)

/-- What the events of a statement should say of one token. -/
def announcedBy (t : ApiTokenRecords) (p : ApiTokenRecord → Bool) (reason : ApiTokenRevokedReason)
    (id : String) : List (String × Option String × ApiTokenRevokedReason) :=
  ((t.find? id).filter p).toList.map fun r => (r.userId, r.organizationId, reason)

/-- What the log says of one token. -/
def aboutToken (log : List RevokedEvent) (id : String) :
    List (String × Option String × ApiTokenRevokedReason) :=
  (log.filter fun e => e.tokenId = id).map RevokedEvent.about

/-- The creation of a token with this text, under this pepper. -/
def Creates (e : BearerEvent) (pepper : String) (raw : JsString) : Prop :=
  ∃ config input id random fuel now createdAt token,
    e = .create config input id random fuel now createdAt ∧
      generateToken random config.pre fuel = some token ∧ config.pepper = pepper ∧
        token.raw = raw

/-- The statement of a step. -/
inductive Moves (hmacToken : String → JsString → String) (s : BearerState) (e : BearerEvent)
    (s' : BearerState) : Prop
  | still (tokens : s'.tokens = s.tokens) (issued : s'.issued = s.issued)
      (revocations : s'.revocations = s.revocations) (usages : s'.usages = s.usages)
  | created (record : ApiTokenRecord) (raw : JsString) (pepper : String)
      (fresh : record.revokedAt = none) (unused : record.lastUsedAt = none)
      (hashed : record.tokenHmac = hmacToken pepper raw)
      (inserted : insertRecord s.tokens record = some s'.tokens)
      (issued : s'.issued = s.issued ++ [(record, raw)])
      (revocations : s'.revocations = s.revocations) (usages : s'.usages = s.usages)
      (creation : Creates e pepper raw)
  | revoked (p : ApiTokenRecord → Bool) (now : Millis) (reason : ApiTokenRevokedReason)
      (spares : ∀ r, p r = true → r.revokedAt = none)
      (tokens : s'.tokens = s.tokens.update p (revokedRecord now reason)
        (key_revokedRecord now reason))
      (issued : s'.issued = s.issued)
      (events : List RevokedEvent) (revocations : s'.revocations = s.revocations ++ events)
      (announced : ∀ id, aboutToken events id = announcedBy s.tokens p reason id)
      (usages : s'.usages = s.usages)
  | used (k : Nat) (q : BearerRequest) (record : ApiTokenRecord) (floorAt now : Millis)
      (event : e = .touch k floorAt now) (found : s.requests[k]? = some q)
      (held : q.phase = .touch record)
      (tokens : s'.tokens =
        (touchLastUsed s.tokens record.id (floorAt - q.config.bucketMin * 60000) now).1)
      (issued : s'.issued = s.issued) (revocations : s'.revocations = s.revocations)
      (usages : s'.usages =
        if (touchLastUsed s.tokens record.id (floorAt - q.config.bucketMin * 60000) now).2
        then s.usages ++ [usedEventOf record now] else s.usages)
  | rehashed (k : Nat) (q : BearerRequest) (record : ApiTokenRecord) (now : Millis)
      (found : s.requests[k]? = some q) (held : q.phase = .rehash record now)
      (tokens : s'.tokens = rehash s.tokens record.id (hmacToken q.config.pepper q.raw)
        q.config.pepperVersion)
      (issued : s'.issued = s.issued) (revocations : s'.revocations = s.revocations)
      (usages : s'.usages = s.usages)

theorem insert_of_insertRecord {t u : ApiTokenRecords} {row : ApiTokenRecord}
    (h : insertRecord t row = some u) : t.insert row = some u := by
  unfold insertRecord at h
  split at h
  · cases h
  · exact h

/-- A test of the row of one id. -/
theorem any_row (t : ApiTokenRecords) (id : String) (p : ApiTokenRecord → Bool) :
    (t.rows.any fun r => r.id = id && p r) = (t.find? id).any p := by
  cases hfind : t.find? id with
  | none =>
      refine List.any_eq_false.2 fun r hr htest => ?_
      exact Table.find?_eq_none.1 hfind r hr (of_decide_eq_true (Bool.and_eq_true_iff.1 htest).1)
  | some r =>
      obtain ⟨hmem, hkey⟩ := Table.find?_eq_some.1 hfind
      rw [Option.any_some]
      cases hp : p r with
      | true => exact List.any_eq_true.2 ⟨r, hmem, by simp [hp, show r.id = id from hkey]⟩
      | false =>
          refine List.any_eq_false.2 fun r' hr' htest => ?_
          obtain ⟨hid, htrue⟩ := Bool.and_eq_true_iff.1 htest
          rw [Table.eq_of_key hr' hmem ((of_decide_eq_true hid).trans hkey.symm), hp] at htrue
          cases htrue

theorem announcedBy_isOpen {t : ApiTokenRecords} {record : ApiTokenRecord}
    (hknown : Tells t record) (actorUserId : Option String) (reason : ApiTokenRevokedReason)
    (id : String) :
    aboutToken (if t.rows.any (isOpen record.id) then [revokedEventOf record actorUserId reason]
      else []) id = announcedBy t (isOpen record.id) reason id := by
  obtain ⟨r, hr, huser, horg, -⟩ := hknown
  have hkey := (Table.find?_eq_some.1 hr).2
  have hany : t.rows.any (isOpen record.id) = r.revokedAt.isNone :=
    (any_row t record.id fun r => r.revokedAt.isNone).trans (by rw [hr]; rfl)
  rw [hany]
  by_cases hid : id = record.id
  · subst hid
    rw [announcedBy, hr]
    cases hopen : r.revokedAt.isNone with
    | true =>
        have htest : isOpen record.id r = true := by
          simp [isOpen, hopen, show r.id = record.id from hkey]
        rw [Option.filter_some, htest]
        simp [aboutToken, revokedEventOf, RevokedEvent.about, huser, horg]
    | false =>
        have htest : isOpen record.id r = false := by simp [isOpen, hopen]
        rw [Option.filter_some, htest]
        rfl
  · have hnone : announcedBy t (isOpen record.id) reason id = [] := by
      rw [announcedBy]
      cases hfind : t.find? id with
      | none => rfl
      | some r' =>
          have hkey' : r'.id = id := (Table.find?_eq_some.1 hfind).2
          have htest : isOpen record.id r' = false := by simp [isOpen, hkey', hid]
          rw [Option.filter_some, htest]
          rfl
    rw [hnone, aboutToken]
    split
    · simp [revokedEventOf, Ne.symm hid]
    · rfl

/-- The statement of a lost membership announces every row it has found. -/
theorem announcedBy_membership {t : ApiTokenRecords} (p : ApiTokenRecord → Bool)
    (actorUserId : Option String) (reason : ApiTokenRevokedReason) (id : String) :
    aboutToken ((t.rows.filter p).map fun r => revokedEventOf r actorUserId reason) id =
      announcedBy t p reason id := by
  have hlog : aboutToken ((t.rows.filter p).map fun r => revokedEventOf r actorUserId reason) id =
      ((t.rows.filter fun r => Keyed.key r = id).filter p).map fun r =>
        (r.userId, r.organizationId, reason) := by
    rw [aboutToken, List.filter_map, List.map_map, List.filter_comm]
    rfl
  rw [hlog, announcedBy, Table.filter_key]
  cases t.find? id with
  | none => rfl
  | some r =>
      rw [Option.filter_some]
      cases hp : p r <;> simp [hp]

theorem moves_revoke {s s' : BearerState} {e : BearerEvent} {record : ApiTokenRecord}
    (hknown : Tells s.tokens record) {now : Millis} {actorUserId : Option String}
    {reason : ApiTokenRevokedReason}
    (tokens : s'.tokens = (s.revoke now record actorUserId reason).tokens)
    (issued : s'.issued = s.issued)
    (revocations : s'.revocations = (s.revoke now record actorUserId reason).revocations)
    (usages : s'.usages = s.usages) : Moves hmacToken s e s' := by
  refine .revoked (isOpen record.id) now reason (fun r hr => ?_) tokens issued
    (if s.tokens.rows.any (isOpen record.id) then [revokedEventOf record actorUserId reason]
      else []) ?_ (announcedBy_isOpen hknown actorUserId reason) usages
  · exact Option.isNone_iff_eq_none.1 (Bool.and_eq_true_iff.1 hr).2
  · rw [revocations]
    show (if s.tokens.rows.any (isOpen record.id) then _ else _) = _
    split
    · rfl
    · exact (List.append_nil _).symm

theorem bearer_moves {s s' : BearerState} {e : BearerEvent} (hknown : Known s)
    (h : bearerStep hmacToken s e = some s') : Moves hmacToken s e s' := by
  cases e with
  | create config input id random fuel now createdAt =>
      simp only [bearerStep] at h
      split at h
      · cases h
        exact .still rfl rfl rfl rfl
      · obtain ⟨token, htoken, rfl⟩ := Option.map_eq_some_iff.1 h
        split
        · exact .still rfl rfl rfl rfl
        · next tokens hinsert =>
            have hcreates : Creates (.create config input id random fuel now createdAt)
                config.pepper token.raw :=
              ⟨config, input, id, random, fuel, now, createdAt, token, rfl, htoken, rfl, rfl⟩
            exact .created _ token.raw config.pepper rfl rfl rfl hinsert rfl rfl rfl hcreates
  | request config authorization scopes =>
      cases h
      exact .still rfl rfl rfl rfl
  | lookup k now =>
      obtain ⟨q, -, h⟩ := Option.bind_eq_some_iff.1 h
      obtain ⟨phase, -, rfl⟩ := Option.map_eq_some_iff.1 h
      exact .still rfl rfl rfl rfl
  | rehash k =>
      obtain ⟨q, hq, h⟩ := Option.bind_eq_some_iff.1 h
      split at h
      · next record now hphase =>
          cases h
          exact .rehashed k q record now hq hphase rfl rfl rfl rfl
      · cases h
  | findUser k user =>
      obtain ⟨q, -, h⟩ := Option.bind_eq_some_iff.1 h
      split at h
      · cases h
        exact .still rfl rfl rfl rfl
      · cases h
  | touch k floorAt now =>
      obtain ⟨q, hq, h⟩ := Option.bind_eq_some_iff.1 h
      split at h
      · next record hphase =>
          cases h
          exact .used k q record floorAt now rfl hq hphase rfl rfl rfl rfl
      · cases h
  | requestFails k =>
      obtain ⟨q, -, h⟩ := Option.bind_eq_some_iff.1 h
      obtain ⟨phase, -, rfl⟩ := Option.map_eq_some_iff.1 h
      exact .still rfl rfl rfl rfl
  | report config token =>
      cases h
      exact .still rfl rfl rfl rfl
  | entryLookup j =>
      obtain ⟨entry, -, h⟩ := Option.bind_eq_some_iff.1 h
      obtain ⟨phase, -, rfl⟩ := Option.map_eq_some_iff.1 h
      exact .still rfl rfl rfl rfl
  | entryRevoke j now =>
      obtain ⟨entry, hentry, h⟩ := Option.bind_eq_some_iff.1 h
      split at h
      · next record hphase =>
          cases h
          have htells := hknown.entries entry (List.mem_of_getElem? hentry) record hphase
          exact moves_revoke htells rfl rfl rfl rfl
      · cases h
  | entryFails j =>
      obtain ⟨entry, -, h⟩ := Option.bind_eq_some_iff.1 h
      split at h
      · cases h
      · cases h
        exact .still rfl rfl rfl rfl
  | remove id owner actorUserId =>
      cases h
      exact .still rfl rfl rfl rfl
  | removalFind i =>
      obtain ⟨r, -, h⟩ := Option.bind_eq_some_iff.1 h
      split at h
      · cases h
        exact .still rfl rfl rfl rfl
      · cases h
  | removalRevoke i now =>
      obtain ⟨r, hr, h⟩ := Option.bind_eq_some_iff.1 h
      split at h
      · next record hphase =>
          cases h
          have htells := hknown.removals r (List.mem_of_getElem? hr) record hphase
          exact moves_revoke htells rfl rfl rfl rfl
      · cases h
  | removalFails i =>
      obtain ⟨r, -, h⟩ := Option.bind_eq_some_iff.1 h
      split at h
      · cases h
      · cases h
        exact .still rfl rfl rfl rfl
  | membershipLost userId organizationId actorUserId now =>
      cases h
      refine .revoked (isOfMembership userId organizationId) now .membershipLost (fun r hr => ?_)
        rfl rfl _ rfl (announcedBy_membership _ (some actorUserId) .membershipLost) rfl
      exact Option.isNone_iff_eq_none.1 (Bool.and_eq_true_iff.1 hr).2

/-- A row is there after a step, and has kept what it never loses. -/
theorem keeps_moves {s s' : BearerState} {e : BearerEvent} (h : Moves hmacToken s e s')
    {id : String} {r : ApiTokenRecord} (hr : s.tokens.find? id = some r) :
    ∃ r', s'.tokens.find? id = some r' ∧ Keeps r r' := by
  cases h with
  | still tokens _ _ _ =>
      rw [tokens]
      exact ⟨r, hr, Keeps.refl r⟩
  | created record raw pepper _ _ _ inserted _ _ _ =>
      exact ⟨r, Table.find?_insert_of_find? (insert_of_insertRecord inserted) hr, Keeps.refl r⟩
  | revoked p now reason spares tokens _ _ _ _ _ =>
      rw [tokens]
      have hkeeps : ∀ r, p r = true → Keeps r (revokedRecord now reason r) := by
        intro r hp
        refine ⟨⟨rfl, rfl, rfl, rfl⟩, fun hrevoked => ?_⟩
        rw [spares r hp] at hrevoked
        cases hrevoked
      exact keeps_update (key_revokedRecord now reason) hkeeps hr
  | used k q record floorAt now _ _ _ tokens _ _ _ =>
      rw [tokens, touchLastUsed]
      have hkeeps : ∀ r, Keeps r (usedRecord now r) :=
        fun r => ⟨⟨rfl, rfl, rfl, rfl⟩, fun _ => ⟨rfl, rfl⟩⟩
      exact keeps_update (key_usedRecord now) (fun r _ => hkeeps r) hr
  | rehashed k q record now _ _ tokens _ _ _ =>
      rw [tokens]
      exact keeps_rehash hr

theorem Tells.moves {s s' : BearerState} {e : BearerEvent} (h : Moves hmacToken s e s')
    {record : ApiTokenRecord} (htells : Tells s.tokens record) : Tells s'.tokens record := by
  obtain ⟨r, hr, hfacts⟩ := htells
  obtain ⟨r', hr', hkeeps⟩ := keeps_moves h hr
  exact ⟨r', hr', hfacts.trans hkeeps.facts⟩

/-! ## Entries and removals -/

/-- What a step does to the entries of reports. -/
inductive EntryMoves (hmacToken : String → JsString → String) (s : BearerState) (e : BearerEvent)
    (s' : BearerState) : Prop
  | still (entries : s'.entries = s.entries)
  | reported (config : TokenConfig) (token : JsString) (event : e = .report config token)
      (entries : s'.entries = s.entries ++ [leakEntry config token])
  | looked (j : Nat) (entry : LeakEntry) (phase : LeakPhase) (found : s.entries[j]? = some entry)
      (next : entryPhase hmacToken s.tokens entry = some phase) (tokens : s'.tokens = s.tokens)
      (entries : s'.entries = s.entries.set j { entry with phase })
  | revoked (j : Nat) (entry : LeakEntry) (record : ApiTokenRecord) (now : Millis)
      (found : s.entries[j]? = some entry) (held : entry.phase = .revoke record)
      (tokens : s'.tokens = (revokeRecord s.tokens now record.id .leaked).1)
      (entries : s'.entries =
        s.entries.set j { entry with phase := .ended (some .truePositive) })
  | failed (j : Nat) (entry : LeakEntry) (found : s.entries[j]? = some entry)
      (entries : s'.entries = s.entries.set j { entry with phase := .ended none })

/-- What a step does to the revocations of owners. -/
inductive RemovalMoves (s s' : BearerState) : Prop
  | still (removals : s'.removals = s.removals)
  | begun (id : String) (owner : TokenOwner) (actorUserId : String)
      (removals : s'.removals = s.removals ++ [⟨id, owner, actorUserId, .find⟩])
  | found (i : Nat) (r : Removal) (removals : s'.removals = s.removals.set i
      { r with phase := removalFound r.owner (findByIdForOwner s.tokens r.id r.owner) })
  | ended (i : Nat) (r : Removal) (outcome : RemovalOutcome)
      (removals : s'.removals = s.removals.set i { r with phase := .ended outcome })

theorem entry_moves {s s' : BearerState} {e : BearerEvent}
    (h : bearerStep hmacToken s e = some s') : EntryMoves hmacToken s e s' := by
  cases e with
  | create config input id random fuel now createdAt =>
      simp only [bearerStep] at h
      split at h
      · cases h
        exact .still rfl
      · obtain ⟨token, -, rfl⟩ := Option.map_eq_some_iff.1 h
        split
        · exact .still rfl
        · exact .still rfl
  | report config token =>
      cases h
      exact .reported config token rfl rfl
  | entryLookup j =>
      obtain ⟨entry, hentry, h⟩ := Option.bind_eq_some_iff.1 h
      obtain ⟨phase, hphase, rfl⟩ := Option.map_eq_some_iff.1 h
      exact .looked j entry phase hentry hphase rfl rfl
  | entryRevoke j now =>
      obtain ⟨entry, hentry, h⟩ := Option.bind_eq_some_iff.1 h
      split at h
      · next record hphase =>
          cases h
          exact .revoked j entry record now hentry hphase rfl rfl
      · cases h
  | entryFails j =>
      obtain ⟨entry, hentry, h⟩ := Option.bind_eq_some_iff.1 h
      split at h
      · cases h
      · cases h
        exact .failed j entry hentry rfl
  | request config authorization scopes =>
      cases h
      exact .still rfl
  | remove id owner actorUserId =>
      cases h
      exact .still rfl
  | membershipLost userId organizationId actorUserId now =>
      cases h
      exact .still rfl
  | lookup k now =>
      obtain ⟨q, -, h⟩ := Option.bind_eq_some_iff.1 h
      obtain ⟨phase, -, rfl⟩ := Option.map_eq_some_iff.1 h
      exact .still rfl
  | requestFails k =>
      obtain ⟨q, -, h⟩ := Option.bind_eq_some_iff.1 h
      obtain ⟨phase, -, rfl⟩ := Option.map_eq_some_iff.1 h
      exact .still rfl
  | rehash k | findUser k user | touch k floorAt now | removalFind k | removalRevoke k now
  | removalFails k =>
      obtain ⟨q, -, h⟩ := Option.bind_eq_some_iff.1 h
      split at h <;> cases h
      exact .still rfl

theorem removal_moves {s s' : BearerState} {e : BearerEvent}
    (h : bearerStep hmacToken s e = some s') : RemovalMoves s s' := by
  cases e with
  | create config input id random fuel now createdAt =>
      simp only [bearerStep] at h
      split at h
      · cases h
        exact .still rfl
      · obtain ⟨token, -, rfl⟩ := Option.map_eq_some_iff.1 h
        split
        · exact .still rfl
        · exact .still rfl
  | remove id owner actorUserId =>
      cases h
      exact .begun id owner actorUserId rfl
  | removalFind i =>
      obtain ⟨r, -, h⟩ := Option.bind_eq_some_iff.1 h
      split at h
      · cases h
        exact .found i r rfl
      · cases h
  | removalRevoke i now =>
      obtain ⟨r, -, h⟩ := Option.bind_eq_some_iff.1 h
      split at h
      · cases h
        exact .ended i r .removed rfl
      · cases h
  | removalFails i =>
      obtain ⟨r, -, h⟩ := Option.bind_eq_some_iff.1 h
      split at h
      · cases h
      · cases h
        exact .ended i r .failed rfl
  | request config authorization scopes =>
      cases h
      exact .still rfl
  | report config token =>
      cases h
      exact .still rfl
  | membershipLost userId organizationId actorUserId now =>
      cases h
      exact .still rfl
  | lookup k now =>
      obtain ⟨q, -, h⟩ := Option.bind_eq_some_iff.1 h
      obtain ⟨phase, -, rfl⟩ := Option.map_eq_some_iff.1 h
      exact .still rfl
  | requestFails k =>
      obtain ⟨q, -, h⟩ := Option.bind_eq_some_iff.1 h
      obtain ⟨phase, -, rfl⟩ := Option.map_eq_some_iff.1 h
      exact .still rfl
  | entryLookup j =>
      obtain ⟨q, -, h⟩ := Option.bind_eq_some_iff.1 h
      obtain ⟨phase, -, rfl⟩ := Option.map_eq_some_iff.1 h
      exact .still rfl
  | rehash k | findUser k user | touch k floorAt now | entryRevoke k now | entryFails k =>
      obtain ⟨q, -, h⟩ := Option.bind_eq_some_iff.1 h
      split at h <;> cases h
      exact .still rfl

theorem leakEntry_phase (config : TokenConfig) (token : JsString) (record : ApiTokenRecord) :
    (leakEntry config token).phase ≠ .revoke record := by
  unfold leakEntry
  dsimp only
  split <;> nofun

theorem known_entries {s s' : BearerState} {e : BearerEvent} (hmoves : Moves hmacToken s e s')
    (h : EntryMoves hmacToken s e s') (hknown : Known s) {entry : LeakEntry}
    (hentry : entry ∈ s'.entries) {record : ApiTokenRecord}
    (hphase : entry.phase = .revoke record) : Tells s'.tokens record := by
  have hkept : entry ∈ s.entries → Tells s'.tokens record := fun hold =>
    (hknown.entries entry hold record hphase).moves hmoves
  cases h with
  | still entries =>
      rw [entries] at hentry
      exact hkept hentry
  | reported config token _ entries =>
      rw [entries, List.mem_append, List.mem_singleton] at hentry
      rcases hentry with hold | rfl
      · exact hkept hold
      · exact absurd hphase (leakEntry_phase config token record)
  | looked j old phase found next tokens entries =>
      rw [entries] at hentry
      rcases List.mem_or_eq_of_mem_set hentry with hold | rfl
      · exact hkept hold
      · obtain rfl : phase = .revoke record := hphase
        rw [tokens]
        exact tells_of_find (entryPhase_revoke next)
  | revoked j old held now found holds tokens entries =>
      rw [entries] at hentry
      rcases List.mem_or_eq_of_mem_set hentry with hold | rfl
      · exact hkept hold
      · cases hphase
  | failed j old found entries =>
      rw [entries] at hentry
      rcases List.mem_or_eq_of_mem_set hentry with hold | rfl
      · exact hkept hold
      · cases hphase

theorem known_removals {s s' : BearerState} {e : BearerEvent} (hmoves : Moves hmacToken s e s')
    (h : RemovalMoves s s') (hknown : Known s) {r : Removal} (hr : r ∈ s'.removals)
    {record : ApiTokenRecord} (hphase : r.phase = .revoke record) : Tells s'.tokens record := by
  have hkept : r ∈ s.removals → Tells s'.tokens record := fun hold =>
    (hknown.removals r hold record hphase).moves hmoves
  cases h with
  | still removals =>
      rw [removals] at hr
      exact hkept hr
  | begun id owner actorUserId removals =>
      rw [removals, List.mem_append, List.mem_singleton] at hr
      rcases hr with hold | rfl
      · exact hkept hold
      · cases hphase
  | found i old removals =>
      rw [removals] at hr
      rcases List.mem_or_eq_of_mem_set hr with hold | rfl
      · exact hkept hold
      · have hfind := find?_of_owner (removalFound_revoke hphase)
        exact (tells_of_find hfind).moves hmoves
  | ended i old outcome removals =>
      rw [removals] at hr
      rcases List.mem_or_eq_of_mem_set hr with hold | rfl
      · exact hkept hold
      · cases hphase

/-- What has been read for a revocation stays true, whatever happens to the row. -/
theorem known_step {s s' : BearerState} {e : BearerEvent} (hknown : Known s)
    (h : bearerStep hmacToken s e = some s') : Known s' :=
  ⟨fun _ hentry _ hphase =>
      known_entries (bearer_moves hknown h) (entry_moves h) hknown hentry hphase,
    fun _ hr _ hphase =>
      known_removals (bearer_moves hknown h) (removal_moves h) hknown hr hphase⟩

/-! ## The columns memberships are about -/

/-- A clock's milliseconds as the time of a column, which counts microseconds. -/
def timeOf (ms : Millis) : Drizzle.Time := ms.toNat * 1000

def ApiTokenRecord.row (r : ApiTokenRecord) : ApiTokenRow :=
  ⟨r.id, r.userId, r.organizationId, r.revokedAt.map timeOf, r.revokedReason⟩

theorem isNone_row (r : ApiTokenRecord) : r.row.revokedAt.isNone = r.revokedAt.isNone :=
  Option.isNone_map

def rowsOf (t : ApiTokenRecords) : ApiTokenTable where
  rows := t.rows.map ApiTokenRecord.row
  nodup := by
    rw [List.map_map]
    exact t.nodup

theorem rowsOf_update {t : ApiTokenRecords} {p : ApiTokenRecord → Bool}
    {f : ApiTokenRecord → ApiTokenRecord} (hf : ∀ r, Keyed.key (f r) = Keyed.key r)
    {q : ApiTokenRow → Bool} {g : ApiTokenRow → ApiTokenRow}
    (hg : ∀ r, Keyed.key (g r) = Keyed.key r) (hp : ∀ r, q r.row = p r)
    (hfg : ∀ r, (f r).row = g r.row) : rowsOf (t.update p f hf) = (rowsOf t).update q g hg := by
  refine Table.ext ?_
  show (t.rows.map fun r => if p r then f r else r).map ApiTokenRecord.row =
    (t.rows.map ApiTokenRecord.row).map fun r => if q r then g r else r
  rw [List.map_map, List.map_map]
  refine List.map_congr_left fun r _ => ?_
  simp only [Function.comp_apply, hp]
  split
  · exact hfg r
  · rfl

/-- A statement that writes other columns. -/
theorem rowsOf_update_same {t : ApiTokenRecords} {p : ApiTokenRecord → Bool}
    {f : ApiTokenRecord → ApiTokenRecord} (hf : ∀ r, Keyed.key (f r) = Keyed.key r)
    (hsame : ∀ r, (f r).row = r.row) : rowsOf (t.update p f hf) = rowsOf t := by
  refine Table.ext ?_
  show (t.rows.map fun r => if p r then f r else r).map ApiTokenRecord.row = _
  rw [List.map_map]
  refine List.map_congr_left fun r _ => ?_
  rw [Function.comp_apply]
  split
  · exact hsame r
  · rfl

theorem rowsOf_rehash (t : ApiTokenRecords) (id hmac : String) (pepperVersion : Nat) :
    rowsOf (rehash t id hmac pepperVersion) = rowsOf t := by
  unfold rehash
  split
  · rfl
  · exact rowsOf_update_same (key_rehashedRecord hmac pepperVersion) fun _ => rfl

theorem rowsOf_touch (t : ApiTokenRecords) (id : String) (bucketFloor now : Millis) :
    rowsOf (touchLastUsed t id bucketFloor now).1 = rowsOf t :=
  rowsOf_update_same (key_usedRecord now) fun _ => rfl

theorem rowsOf_revokeRecord (t : ApiTokenRecords) (now : Millis) (id : String)
    (reason : ApiTokenRevokedReason) :
    rowsOf (revokeRecord t now id reason).1 = revokeToken (rowsOf t) (timeOf now) id reason := by
  refine rowsOf_update (key_revokedRecord now reason) (revokedSet_id (timeOf now) reason)
    (fun r => ?_) fun _ => rfl
  rw [isNone_row]
  rfl

theorem isOfMembership_row (userId organizationId : String) (r : ApiTokenRecord) :
    ofMembership userId organizationId r.row = isOfMembership userId organizationId r := by
  rw [ofMembership, isNone_row]
  rfl

/-- The rows after the statement of a lost membership, and the ids it returns. -/
theorem rowsOf_revokeMembership (t : ApiTokenRecords) (now : Millis)
    (userId organizationId : String) :
    revokeAllForMembership (rowsOf t) (timeOf now) userId organizationId =
      (rowsOf (revokeMembership t now userId organizationId).1,
        (revokeMembership t now userId organizationId).2.map ApiTokenRecord.id) := by
  have hrows := rowsOf_update (t := t) (key_revokedRecord now .membershipLost)
    (revokedSet_id (timeOf now) .membershipLost) (isOfMembership_row userId organizationId)
    fun _ => rfl
  refine Prod.ext hrows.symm ?_
  have htest : ofMembership userId organizationId ∘ ApiTokenRecord.row =
      isOfMembership userId organizationId := funext (isOfMembership_row userId organizationId)
  show ((((t.rows.map ApiTokenRecord.row).filter (ofMembership userId organizationId)).map _).map
    ApiTokenRow.id) = _
  rw [List.filter_map, htest, List.map_map, List.map_map]
  rfl

theorem rowsOf_insert {t u : ApiTokenRecords} {record : ApiTokenRecord}
    (h : t.insert record = some u) : (rowsOf t).insert record.row = some (rowsOf u) := by
  have hfresh : Keyed.key record.row ∉ (rowsOf t).rows.map Keyed.key := by
    intro htaken
    obtain ⟨row, hrow, hkey⟩ := List.mem_map.1 htaken
    obtain ⟨r, hr, rfl⟩ := List.mem_map.1 hrow
    exact Table.insert_fresh h r hr hkey
  obtain ⟨v, hv, hrows⟩ := Table.exists_insert hfresh
  have hsame : (rowsOf u).rows = record.row :: (rowsOf t).rows := by
    show u.rows.map ApiTokenRecord.row = _
    rw [Table.rows_insert h]
    rfl
  rw [hv, Table.ext (hrows.trans hsame.symm)]

/-- The statements that memberships are about. -/
inductive RowsMove (rows rows' : ApiTokenTable) : Prop
  | same (unchanged : rows' = rows)
  | created (maxExpiryDays : Nat) (input : CreateTokenInput) (id : String) (row : ApiTokenRow)
      (creation : createToken maxExpiryDays id input.userId input.organizationId
        input.expiresInDays = .ok row)
      (inserted : rows.insert row = some rows')
  | revoked (now : Drizzle.Time) (id : String) (reason : ApiTokenRevokedReason)
      (other : reason ≠ .membershipLost) (written : rows' = revokeToken rows now id reason)
  | left (now : Drizzle.Time) (userId organizationId : String)
      (written : rows' = (revokeAllForMembership rows now userId organizationId).1)

/-- Whatever a step is, those columns see a creation, a revocation of one token,
the end of a membership or nothing. -/
theorem rows_move {s s' : BearerState} {e : BearerEvent}
    (h : bearerStep hmacToken s e = some s') : RowsMove (rowsOf s.tokens) (rowsOf s'.tokens) := by
  cases e with
  | create config input id random fuel now createdAt =>
      simp only [bearerStep] at h
      split at h
      · cases h
        exact .same rfl
      · next hexpiry =>
          obtain ⟨token, -, rfl⟩ := Option.map_eq_some_iff.1 h
          split
          · exact .same rfl
          · next tokens hinsert =>
              have hrow : createToken config.maxExpiryDays id input.userId input.organizationId
                  input.expiresInDays =
                    .ok (newRecord hmacToken config input id token now createdAt).row := by
                rw [createToken, if_neg hexpiry]
                rfl
              exact .created config.maxExpiryDays input id _ hrow
                (rowsOf_insert (insert_of_insertRecord hinsert))
  | rehash k =>
      obtain ⟨q, -, h⟩ := Option.bind_eq_some_iff.1 h
      split at h
      · cases h
        exact .same (rowsOf_rehash _ _ _ _)
      · cases h
  | touch k floorAt now =>
      obtain ⟨q, -, h⟩ := Option.bind_eq_some_iff.1 h
      split at h
      · cases h
        exact .same (rowsOf_touch _ _ _ _)
      · cases h
  | entryRevoke j now =>
      obtain ⟨entry, -, h⟩ := Option.bind_eq_some_iff.1 h
      split at h
      · next record _ =>
          cases h
          exact .revoked (timeOf now) record.id .leaked (by decide) (rowsOf_revokeRecord _ _ _ _)
      · cases h
  | removalRevoke i now =>
      obtain ⟨r, -, h⟩ := Option.bind_eq_some_iff.1 h
      split at h
      · next record _ =>
          cases h
          exact .revoked (timeOf now) record.id .user (by decide) (rowsOf_revokeRecord _ _ _ _)
      · cases h
  | membershipLost userId organizationId actorUserId now =>
      cases h
      exact .left (timeOf now) userId organizationId
        (congrArg Prod.fst (rowsOf_revokeMembership _ _ _ _)).symm
  | request | report | remove =>
      cases h
      exact .same rfl
  | lookup | requestFails | entryLookup =>
      obtain ⟨_, -, h⟩ := Option.bind_eq_some_iff.1 h
      obtain ⟨_, -, rfl⟩ := Option.map_eq_some_iff.1 h
      exact .same rfl
  | findUser | entryFails | removalFind | removalFails =>
      obtain ⟨_, -, h⟩ := Option.bind_eq_some_iff.1 h
      split at h <;> cases h
      exact .same rfl

end CleanStack.ApiToken
