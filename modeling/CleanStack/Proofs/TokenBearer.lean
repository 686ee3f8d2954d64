import CleanStack.Proofs.TokenRevocation

/-!
# A revoked token is refused

The record a request carries on with is a row of the table when it is looked
up, open, and with the HMAC of what the bearer has sent. Rows are only rehashed
to the HMAC of the same text, so while the HMAC tells texts apart, the record is
the one that was issued with this text. And since no statement opens a row that
is revoked, a request that begins after the revocation never finds it.

A report is judged by the same lookups: when it is answered as a true positive
the row of the reported text is revoked, whoever has done it.
-/

namespace CleanStack.ApiToken

open CleanStack.Lib CleanStack.Kit

variable {hmacToken : String → JsString → String}

/-! ## What a step does to the requests -/

/-- The record a request carries on with. -/
def BearerPhase.record? : BearerPhase → Option ApiTokenRecord
  | .rehash record _ => some record
  | .user record _ => some record
  | .touch record => some record
  | .ended (.served record) => some record
  | _ => none

/-- A request goes on by an event of its own that is no lookup. -/
inductive Advances (e : BearerEvent) (k : Nat) (q : BearerRequest) : BearerPhase → Prop
  | rehashed (record : ApiTokenRecord) (now : Millis) (event : e = .rehash k)
      (held : q.phase = .rehash record now) : Advances e k q (checkScopes q.scopes record now)
  | checked (record : ApiTokenRecord) (now : Millis) (user : Option BearerUser)
      (event : e = .findUser k user) (held : q.phase = .user record now) :
      Advances e k q (checkUser record now user)
  | touched (record : ApiTokenRecord) (floorAt now : Millis) (event : e = .touch k floorAt now)
      (held : q.phase = .touch record) : Advances e k q (.ended (.served record))
  | failed (phase : BearerPhase) (event : e = .requestFails k)
      (next : failedPhase q = some phase) : Advances e k q phase

inductive RequestMoves (hmacToken : String → JsString → String) (s : BearerState)
    (e : BearerEvent) (s' : BearerState) : Prop
  | still (requests : s'.requests = s.requests)
  | begun (config : TokenConfig) (authorization : Option JsString) (scopes : List String)
      (event : e = .request config authorization scopes)
      (requests : s'.requests = s.requests ++ [bearerRequest config authorization scopes])
  | looked (k : Nat) (q : BearerRequest) (now : Millis) (phase : BearerPhase)
      (event : e = .lookup k now) (found : s.requests[k]? = some q)
      (next : lookupPhase hmacToken s.tokens q now = some phase)
      (requests : s'.requests = s.requests.set k { q with phase })
  | advanced (k : Nat) (q : BearerRequest) (phase : BearerPhase)
      (found : s.requests[k]? = some q) (next : Advances e k q phase)
      (requests : s'.requests = s.requests.set k { q with phase })

theorem checkScopes_record {scopes : List String} {record found : ApiTokenRecord} {now : Millis}
    (h : (checkScopes scopes record now).record? = some found) : found = record := by
  unfold checkScopes at h
  split at h
  · exact (Option.some.inj h).symm
  · cases h

theorem checkUser_record {record found : ApiTokenRecord} {now : Millis} {user : Option BearerUser}
    (h : (checkUser record now user).record? = some found) : found = record := by
  unfold checkUser at h
  split at h
  · cases h
  · split at h
    · cases h
    · exact (Option.some.inj h).symm

theorem failedPhase_record {q : BearerRequest} {phase : BearerPhase} {found : ApiTokenRecord}
    (h : failedPhase q = some phase) (hfound : phase.record? = some found) :
    q.phase.record? = some found := by
  unfold failedPhase at h
  split at h
  · cases h
    cases hfound
  · cases h
    cases hfound
  · next record now hphase =>
      cases h
      rw [hphase, checkScopes_record hfound]
      rfl
  · cases h
    cases hfound
  · next record hphase =>
      cases h
      rw [hphase]
      exact hfound
  · cases h

/-- It keeps its record, if it keeps any. -/
theorem advances_record {e : BearerEvent} {k : Nat} {q : BearerRequest} {phase : BearerPhase}
    {found : ApiTokenRecord} (h : Advances e k q phase) (hfound : phase.record? = some found) :
    q.phase.record? = some found := by
  cases h with
  | rehashed record now _ held =>
      rw [held, checkScopes_record hfound]
      rfl
  | checked record now user _ held =>
      rw [held, checkUser_record hfound]
      rfl
  | touched record floorAt now _ held =>
      rw [held]
      exact hfound
  | failed phase _ next => exact failedPhase_record next hfound

theorem request_moves {s s' : BearerState} {e : BearerEvent}
    (h : bearerStep hmacToken s e = some s') : RequestMoves hmacToken s e s' := by
  cases e with
  | create config input id random fuel now createdAt =>
      simp only [bearerStep] at h
      split at h
      · cases h
        exact .still rfl
      · obtain ⟨token, -, rfl⟩ := Option.map_eq_some_iff.1 h
        split
        · exact .still rfl
        · exact .still rfl
  | request config authorization scopes =>
      cases h
      exact .begun config authorization scopes rfl rfl
  | lookup k now =>
      obtain ⟨q, hq, h⟩ := Option.bind_eq_some_iff.1 h
      obtain ⟨phase, hphase, rfl⟩ := Option.map_eq_some_iff.1 h
      exact .looked k q now phase rfl hq hphase rfl
  | rehash k =>
      obtain ⟨q, hq, h⟩ := Option.bind_eq_some_iff.1 h
      split at h
      · next record now hphase =>
          cases h
          exact .advanced k q _ hq (.rehashed record now rfl hphase) rfl
      · cases h
  | findUser k user =>
      obtain ⟨q, hq, h⟩ := Option.bind_eq_some_iff.1 h
      split at h
      · next record now hphase =>
          cases h
          exact .advanced k q _ hq (.checked record now user rfl hphase) rfl
      · cases h
  | touch k floorAt now =>
      obtain ⟨q, hq, h⟩ := Option.bind_eq_some_iff.1 h
      split at h
      · next record hphase =>
          cases h
          exact .advanced k q _ hq (.touched record floorAt now rfl hphase) rfl
      · cases h
  | requestFails k =>
      obtain ⟨q, hq, h⟩ := Option.bind_eq_some_iff.1 h
      obtain ⟨phase, hphase, rfl⟩ := Option.map_eq_some_iff.1 h
      exact .advanced k q phase hq (.failed phase rfl hphase) rfl
  | report config token =>
      cases h
      exact .still rfl
  | remove id owner actorUserId =>
      cases h
      exact .still rfl
  | membershipLost userId organizationId actorUserId now =>
      cases h
      exact .still rfl
  | entryLookup j =>
      obtain ⟨entry, -, h⟩ := Option.bind_eq_some_iff.1 h
      obtain ⟨phase, -, rfl⟩ := Option.map_eq_some_iff.1 h
      exact .still rfl
  | entryRevoke j now | entryFails j | removalFind j | removalRevoke j now | removalFails j =>
      obtain ⟨r, -, h⟩ := Option.bind_eq_some_iff.1 h
      split at h <;> cases h
      exact .still rfl

/-! ## What a lookup finds -/

theorem checkRecord_record {scopes : List String} {found record : ApiTokenRecord}
    {needsRehash : Bool} {now : Millis}
    (h : (checkRecord scopes found needsRehash now).record? = some record) :
    found = record ∧ record.revokedAt = none := by
  unfold checkRecord at h
  split at h
  · cases h
  · next hopen =>
      have hnone : found.revokedAt = none := by simpa using hopen
      split at h
      · cases h
      · split at h
        · obtain rfl : found = record := Option.some.inj h
          exact ⟨rfl, hnone⟩
        · obtain rfl := checkScopes_record h
          exact ⟨rfl, hnone⟩

/-- A record that a lookup lets through is an open row with the HMAC. -/
theorem lookupPhase_record {t : ApiTokenRecords} {q : BearerRequest} {now : Millis}
    {phase : BearerPhase} {record : ApiTokenRecord} (h : lookupPhase hmacToken t q now = some phase)
    (hrecord : phase.record? = some record) :
    t.find? record.id = some record ∧ record.revokedAt = none ∧
      ∃ pepper, (pepper = q.config.pepper ∨ q.phase = .previous pepper) ∧
        record.tokenHmac = hmacToken pepper q.raw := by
  have hrow : ∀ {pepper found needsRehash},
      (pepper = q.config.pepper ∨ q.phase = .previous pepper) →
      findByHmac t (hmacToken pepper q.raw) = some found →
      (checkRecord q.scopes found needsRehash now).record? = some record →
      t.find? record.id = some record ∧ record.revokedAt = none ∧
        ∃ pepper, (pepper = q.config.pepper ∨ q.phase = .previous pepper) ∧
          record.tokenHmac = hmacToken pepper q.raw := by
    intro pepper found needsRehash hunder hfind hfound
    obtain ⟨rfl, hopen⟩ := checkRecord_record hfound
    obtain ⟨hrow, hhmac⟩ := find?_of_findByHmac hfind
    exact ⟨hrow, hopen, pepper, hunder, hhmac⟩
  unfold lookupPhase at h
  split at h
  · cases h
    cases hfind : findByHmac t (hmacToken q.config.pepper q.raw) with
    | none =>
        rw [hfind, afterCurrent] at hrecord
        split at hrecord <;> cases hrecord
    | some found =>
        rw [hfind] at hrecord
        exact hrow (.inl rfl) hfind hrecord
  · next pepper hphase =>
      cases h
      cases hfind : findByHmac t (hmacToken pepper q.raw) with
      | none =>
          rw [hfind] at hrecord
          cases hrecord
      | some found =>
          rw [hfind] at hrecord
          exact hrow (.inr hphase) hfind hrecord
  · cases h

theorem checkScopes_previous {scopes : List String} {record : ApiTokenRecord} {now : Millis}
    (pepper : String) : checkScopes scopes record now ≠ .previous pepper := by
  unfold checkScopes
  split <;> nofun

theorem checkRecord_previous {scopes : List String} {record : ApiTokenRecord}
    {needsRehash : Bool} {now : Millis} (pepper : String) :
    checkRecord scopes record needsRehash now ≠ .previous pepper := by
  unfold checkRecord
  split
  · nofun
  · split
    · nofun
    · split
      · nofun
      · exact checkScopes_previous pepper

theorem lookupPhase_previous {t : ApiTokenRecords} {q : BearerRequest} {now : Millis}
    {pepper : String} (h : lookupPhase hmacToken t q now = some (.previous pepper)) :
    q.config.pepperPrevious = some pepper := by
  unfold lookupPhase at h
  split at h
  · have h := Option.some.inj h
    unfold afterCurrent at h
    split at h
    · exact absurd h (checkRecord_previous pepper)
    · split at h
      · next hprevious => rw [hprevious, BearerPhase.previous.inj h]
      · cases h
  · have h := Option.some.inj h
    unfold afterPrevious at h
    split at h
    · exact absurd h (checkRecord_previous pepper)
    · cases h
  · cases h

theorem advances_previous {e : BearerEvent} {k : Nat} {q : BearerRequest} {phase : BearerPhase}
    (h : Advances e k q phase) (pepper : String) : phase ≠ .previous pepper := by
  cases h with
  | rehashed record now _ _ => exact checkScopes_previous pepper
  | checked record now user _ _ =>
      unfold checkUser
      split
      · nofun
      · split <;> nofun
  | touched record floorAt now _ _ => nofun
  | failed phase _ next =>
      unfold failedPhase at next
      split at next <;> cases next
      · nofun
      · nofun
      · exact checkScopes_previous pepper
      · nofun
      · nofun

/-! ## The text of a record -/

/-- The record was issued with this text. -/
def IssuedWith (s : BearerState) (id : String) (raw : JsString) : Prop :=
  ∃ answer ∈ s.issued, answer.1.id = id ∧ answer.2 = raw

/-- The peppers and the text of the lookups of a request, or of an entry. -/
structure InUse (peppers : Set String) (texts : Set JsString) (config : TokenConfig)
    (raw : JsString) : Prop where
  pepper : config.pepper ∈ peppers
  previous : ∀ pepper, config.pepperPrevious = some pepper → pepper ∈ peppers
  text : raw ∈ texts

/-- Whatever text a run issues or looks up is one of these, under one of these
peppers. -/
def Within (peppers : Set String) (texts : Set JsString) (_ : BearerState) : BearerEvent → Prop
  | .create config _ _ random fuel _ _ => config.pepper ∈ peppers ∧
      ∀ token, generateToken random config.pre fuel = some token → token.raw ∈ texts
  | .request config authorization scopes =>
      (bearerRequest config authorization scopes).phase = .current →
        InUse peppers texts config (bearerRequest config authorization scopes).raw
  | .report config token =>
      (leakEntry config token).phase = .current → InUse peppers texts config token
  | _ => True

/-- No two of these texts have one HMAC under these peppers. -/
def TellsApart (hmacToken : String → JsString → String) (peppers : Set String)
    (texts : Set JsString) : Prop :=
  ∀ pepper ∈ peppers, ∀ pepper' ∈ peppers, ∀ raw ∈ texts, ∀ raw' ∈ texts,
    hmacToken pepper raw = hmacToken pepper' raw' → raw = raw'

variable {peppers : Set String} {texts : Set JsString}

/-- Requests and entries that are not over look up what is in use. -/
structure Inside (peppers : Set String) (texts : Set JsString) (s : BearerState) : Prop where
  borne : ∀ q ∈ s.requests, (∃ outcome, q.phase = .ended outcome) ∨
    InUse peppers texts q.config q.raw ∧
      ∀ pepper, q.phase = .previous pepper → pepper ∈ peppers
  reported : ∀ entry ∈ s.entries, (∃ label, entry.phase = .ended label) ∨
    InUse peppers texts entry.config entry.token ∧
      ∀ pepper, entry.phase = .previous pepper → pepper ∈ peppers

theorem lookupPhase_running {t : ApiTokenRecords} {q : BearerRequest} {now : Millis}
    {phase : BearerPhase} (h : lookupPhase hmacToken t q now = some phase)
    (outcome : BearerOutcome) : q.phase ≠ .ended outcome := by
  intro hended
  rw [lookupPhase, hended] at h
  cases h

theorem advances_running {e : BearerEvent} {k : Nat} {q : BearerRequest} {phase : BearerPhase}
    (h : Advances e k q phase) (outcome : BearerOutcome) : q.phase ≠ .ended outcome := by
  intro hended
  cases h with
  | rehashed record now _ held =>
      rw [hended] at held
      cases held
  | checked record now user _ held =>
      rw [hended] at held
      cases held
  | touched record floorAt now _ held =>
      rw [hended] at held
      cases held
  | failed phase _ next =>
      rw [failedPhase, hended] at next
      cases next

theorem bearerRequest_phase (config : TokenConfig) (authorization : Option JsString)
    (scopes : List String) :
    (bearerRequest config authorization scopes).phase = .current ∨
      (bearerRequest config authorization scopes).phase = .ended (.refused 401) := by
  unfold bearerRequest
  split
  · exact .inr rfl
  · dsimp only
    split
    · exact .inl rfl
    · exact .inr rfl

theorem bearerRequest_config (config : TokenConfig) (authorization : Option JsString)
    (scopes : List String) : (bearerRequest config authorization scopes).config = config := by
  unfold bearerRequest
  split
  · rfl
  · dsimp only
    split <;> rfl

theorem inside_borne {s s' : BearerState} {e : BearerEvent} (hs : Inside peppers texts s)
    (hwithin : Within peppers texts s e) (h : RequestMoves hmacToken s e s') :
    ∀ q ∈ s'.requests, (∃ outcome, q.phase = .ended outcome) ∨
      InUse peppers texts q.config q.raw ∧
        ∀ pepper, q.phase = .previous pepper → pepper ∈ peppers := by
  intro q hq
  cases h with
  | still requests =>
      rw [requests] at hq
      exact hs.borne q hq
  | begun config authorization scopes event requests =>
      subst event
      rw [requests, List.mem_append, List.mem_singleton] at hq
      rcases hq with hold | rfl
      · exact hs.borne q hold
      · rcases bearerRequest_phase config authorization scopes with hphase | hphase
        · refine .inr ⟨?_, fun pepper hprevious => ?_⟩
          · rw [bearerRequest_config]
            exact hwithin hphase
          · rw [hphase] at hprevious
            cases hprevious
        · exact .inl ⟨_, hphase⟩
  | looked k old now phase _ found next requests =>
      rw [requests] at hq
      rcases List.mem_or_eq_of_mem_set hq with hold | rfl
      · exact hs.borne q hold
      · rcases hs.borne old (List.mem_of_getElem? found) with ⟨outcome, hended⟩ | ⟨huse, -⟩
        · exact absurd hended (lookupPhase_running next outcome)
        · refine .inr ⟨huse, fun pepper hprevious => huse.previous pepper ?_⟩
          obtain rfl : phase = .previous pepper := hprevious
          exact lookupPhase_previous next
  | advanced k old phase found next requests =>
      rw [requests] at hq
      rcases List.mem_or_eq_of_mem_set hq with hold | rfl
      · exact hs.borne q hold
      · rcases hs.borne old (List.mem_of_getElem? found) with ⟨outcome, hended⟩ | ⟨huse, -⟩
        · exact absurd hended (advances_running next outcome)
        · exact .inr ⟨huse, fun pepper hprevious =>
            absurd hprevious (advances_previous next pepper)⟩

theorem entryPhase_running {t : ApiTokenRecords} {entry : LeakEntry} {phase : LeakPhase}
    (h : entryPhase hmacToken t entry = some phase) (label : Option LeakLabel) :
    entry.phase ≠ .ended label := by
  intro hended
  rw [entryPhase, hended] at h
  cases h

theorem judgeRecord_previous (record : ApiTokenRecord) (pepper : String) :
    judgeRecord record ≠ .previous pepper := by
  unfold judgeRecord
  split <;> nofun

theorem entryPhase_previous {t : ApiTokenRecords} {entry : LeakEntry} {pepper : String}
    (h : entryPhase hmacToken t entry = some (.previous pepper)) :
    entry.config.pepperPrevious = some pepper := by
  unfold entryPhase at h
  split at h
  · rw [Option.some_inj] at h
    split at h
    · exact absurd h (judgeRecord_previous _ pepper)
    · next hprevious => rw [hprevious, LeakPhase.previous.inj h]
    · cases h
  · rw [Option.some_inj] at h
    split at h
    · exact absurd h (judgeRecord_previous _ pepper)
    · cases h
  · cases h

theorem leakEntry_begins (config : TokenConfig) (token : JsString) :
    (leakEntry config token).phase = .current ∨
      (leakEntry config token).phase = .ended (some .falsePositive) := by
  unfold leakEntry
  dsimp only
  split
  · exact .inl rfl
  · exact .inr rfl

theorem inside_reported {s s' : BearerState} {e : BearerEvent} (hs : Inside peppers texts s)
    (hwithin : Within peppers texts s e) (h : EntryMoves hmacToken s e s') :
    ∀ entry ∈ s'.entries, (∃ label, entry.phase = .ended label) ∨
      InUse peppers texts entry.config entry.token ∧
        ∀ pepper, entry.phase = .previous pepper → pepper ∈ peppers := by
  intro entry hentry
  cases h with
  | still entries =>
      rw [entries] at hentry
      exact hs.reported entry hentry
  | reported config token event entries =>
      subst event
      rw [entries, List.mem_append, List.mem_singleton] at hentry
      rcases hentry with hold | rfl
      · exact hs.reported entry hold
      · rcases leakEntry_begins config token with hphase | hphase
        · refine .inr ⟨hwithin hphase, fun pepper hprevious => ?_⟩
          rw [hphase] at hprevious
          cases hprevious
        · exact .inl ⟨_, hphase⟩
  | looked j old phase found next tokens entries =>
      rw [entries] at hentry
      rcases List.mem_or_eq_of_mem_set hentry with hold | rfl
      · exact hs.reported entry hold
      · rcases hs.reported old (List.mem_of_getElem? found) with ⟨label, hended⟩ | ⟨huse, -⟩
        · exact absurd hended (entryPhase_running next label)
        · refine .inr ⟨huse, fun pepper hprevious => huse.previous pepper ?_⟩
          obtain rfl : phase = .previous pepper := hprevious
          exact entryPhase_previous next
  | revoked j old record now found holds tokens entries =>
      rw [entries] at hentry
      rcases List.mem_or_eq_of_mem_set hentry with hold | rfl
      · exact hs.reported entry hold
      · exact .inl ⟨_, rfl⟩
  | failed j old found entries =>
      rw [entries] at hentry
      rcases List.mem_or_eq_of_mem_set hentry with hold | rfl
      · exact hs.reported entry hold
      · exact .inl ⟨_, rfl⟩

/-- Rows have the HMAC of the text they were issued with, and a request carries
on with the record issued with its own. -/
structure Textual (hmacToken : String → JsString → String) (peppers : Set String)
    (texts : Set JsString) (s : BearerState) : Prop where
  inside : Inside peppers texts s
  rows : ∀ r ∈ s.tokens.rows, ∃ raw ∈ texts, ∃ pepper ∈ peppers,
    IssuedWith s r.id raw ∧ r.tokenHmac = hmacToken pepper raw
  requests : ∀ q ∈ s.requests, ∀ record, q.phase.record? = some record →
    IssuedWith s record.id q.raw

theorem IssuedWith.moves {s s' : BearerState} {e : BearerEvent} (h : Moves hmacToken s e s')
    {id : String} {raw : JsString} (hissued : IssuedWith s id raw) : IssuedWith s' id raw := by
  obtain ⟨answer, hanswer, hid, hraw⟩ := hissued
  refine ⟨answer, ?_, hid, hraw⟩
  cases h with
  | still _ issued _ _ => rwa [issued]
  | created _ _ _ _ _ _ _ issued _ _ =>
      rw [issued]
      exact List.mem_append_left _ hanswer
  | revoked _ _ _ _ _ issued _ _ _ _ => rwa [issued]
  | used _ _ _ _ _ _ _ _ _ issued _ _ => rwa [issued]
  | rehashed _ _ _ _ _ _ _ issued _ _ => rwa [issued]

theorem textual_rows {s s' : BearerState} {e : BearerEvent}
    (hs : Textual hmacToken peppers texts s) (hwithin : Within peppers texts s e)
    (h : Moves hmacToken s e s') :
    ∀ r ∈ s'.tokens.rows, ∃ raw ∈ texts, ∃ pepper ∈ peppers,
      IssuedWith s' r.id raw ∧ r.tokenHmac = hmacToken pepper raw := by
  have hold : ∀ r ∈ s.tokens.rows, ∃ raw ∈ texts, ∃ pepper ∈ peppers,
      IssuedWith s' r.id raw ∧ r.tokenHmac = hmacToken pepper raw := by
    intro r hr
    obtain ⟨raw, hraw, pepper, hpepper, hissued, hhmac⟩ := hs.rows r hr
    exact ⟨raw, hraw, pepper, hpepper, hissued.moves h, hhmac⟩
  intro r hr
  cases h with
  | still tokens issued _ _ =>
      rw [tokens] at hr
      exact hold r hr
  | created record raw pepper _ _ hashed inserted issued _ _ creation =>
      rcases (Table.mem_insert (insert_of_insertRecord inserted)).1 hr with rfl | hr
      · obtain ⟨config, input, id, random, fuel, now, createdAt, token, rfl, htoken, rfl, rfl⟩ :=
          creation
        refine ⟨token.raw, hwithin.2 token htoken, config.pepper, hwithin.1,
          ⟨(r, token.raw), ?_, rfl, rfl⟩, hashed⟩
        rw [issued]
        exact List.mem_append_right _ List.mem_cons_self
      · exact hold r hr
  | revoked p now reason _ tokens issued _ _ _ _ =>
      rw [tokens] at hr
      obtain ⟨row, hrow, rfl⟩ := (Table.mem_update _).1 hr
      split
      · exact hold row hrow
      · exact hold row hrow
  | used k q record floorAt now _ _ _ tokens issued _ _ =>
      rw [tokens, touchLastUsed] at hr
      obtain ⟨row, hrow, rfl⟩ := (Table.mem_update (key_usedRecord now)).1 hr
      split
      · exact hold row hrow
      · exact hold row hrow
  | rehashed k q record now found held tokens issued _ _ =>
      rw [tokens, rehash] at hr
      split at hr
      · exact hold r hr
      · obtain ⟨row, hrow, rfl⟩ := (Table.mem_update _).1 hr
        split
        · next hid =>
            have hmem := List.mem_of_getElem? found
            have hissued := hs.requests q hmem record (by rw [held]; rfl)
            rcases hs.inside.borne q hmem with ⟨outcome, hended⟩ | ⟨huse, -⟩
            · rw [hended] at held
              cases held
            refine ⟨q.raw, huse.text, q.config.pepper, huse.pepper, ?_, rfl⟩
            have hsame : (rehashedRecord (hmacToken q.config.pepper q.raw) q.config.pepperVersion
                row).id = record.id := of_decide_eq_true hid
            rw [hsame]
            obtain ⟨answer, hanswer, heq⟩ := hissued
            exact ⟨answer, issued ▸ hanswer, heq⟩
        · exact hold row hrow

theorem bearerRequest_record (config : TokenConfig) (authorization : Option JsString)
    (scopes : List String) :
    (bearerRequest config authorization scopes).phase.record? = none := by
  unfold bearerRequest
  split
  · rfl
  · dsimp only
    split <;> rfl

/-- The record of a lookup was issued with the text that is looked up. -/
theorem found_issued (happart : TellsApart hmacToken peppers texts) {s : BearerState}
    (hs : Textual hmacToken peppers texts s) {pepper : String} (hpepper : pepper ∈ peppers)
    {raw : JsString} (hraw : raw ∈ texts) {record : ApiTokenRecord}
    (hrow : s.tokens.find? record.id = some record)
    (hhmac : record.tokenHmac = hmacToken pepper raw) : IssuedWith s record.id raw := by
  obtain ⟨raw', hraw', pepper', hpepper', hissued, hhmac'⟩ :=
    hs.rows record (Table.find?_eq_some.1 hrow).1
  have hsame : raw' = raw :=
    happart pepper' hpepper' pepper hpepper raw' hraw' raw hraw (hhmac'.symm.trans hhmac)
  rwa [hsame] at hissued

theorem textual_requests (happart : TellsApart hmacToken peppers texts) {s s' : BearerState}
    {e : BearerEvent} (hs : Textual hmacToken peppers texts s) (hmoves : Moves hmacToken s e s')
    (h : RequestMoves hmacToken s e s') : ∀ q ∈ s'.requests, ∀ record,
      q.phase.record? = some record → IssuedWith s' record.id q.raw := by
  intro q hq record hrecord
  have hold : q ∈ s.requests → IssuedWith s' record.id q.raw := fun hmem =>
    (hs.requests q hmem record hrecord).moves hmoves
  cases h with
  | still requests =>
      rw [requests] at hq
      exact hold hq
  | begun config authorization scopes _ requests =>
      rw [requests, List.mem_append, List.mem_singleton] at hq
      rcases hq with hmem | rfl
      · exact hold hmem
      · rw [bearerRequest_record] at hrecord
        cases hrecord
  | looked k old now phase _ found next requests =>
      rw [requests] at hq
      rcases List.mem_or_eq_of_mem_set hq with hmem | rfl
      · exact hold hmem
      · obtain ⟨hrow, -, pepper, hunder, hhmac⟩ := lookupPhase_record next hrecord
        rcases hs.inside.borne old (List.mem_of_getElem? found) with
          ⟨outcome, hended⟩ | ⟨huse, hprevious⟩
        · exact absurd hended (lookupPhase_running next outcome)
        · have hpepper : pepper ∈ peppers := by
            rcases hunder with rfl | hphase
            · exact huse.pepper
            · exact hprevious pepper hphase
          exact (found_issued happart hs hpepper huse.text hrow hhmac).moves hmoves
  | advanced k old phase found next requests =>
      rw [requests] at hq
      rcases List.mem_or_eq_of_mem_set hq with hmem | rfl
      · exact hold hmem
      · have hkept := advances_record next hrecord
        exact (hs.requests old (List.mem_of_getElem? found) record hkept).moves hmoves

theorem textual_empty : Textual hmacToken peppers texts emptyBearers :=
  ⟨⟨fun _ h => absurd h List.not_mem_nil, fun _ h => absurd h List.not_mem_nil⟩,
    fun _ h => absurd h List.not_mem_nil, fun _ h => absurd h List.not_mem_nil⟩

theorem textual_step (happart : TellsApart hmacToken peppers texts) {s s' : BearerState}
    {e : BearerEvent} (hs : Known s ∧ Textual hmacToken peppers texts s)
    (hwithin : Within peppers texts s e) (h : bearerStep hmacToken s e = some s') :
    Known s' ∧ Textual hmacToken peppers texts s' :=
  have hmoves := bearer_moves hs.1 h
  have hinside := hs.2.inside
  ⟨known_step hs.1 h,
    ⟨inside_borne hinside hwithin (request_moves h),
      inside_reported hinside hwithin (entry_moves h)⟩,
    textual_rows hs.2 hwithin hmoves, textual_requests happart hs.2 hmoves (request_moves h)⟩

/-! ## After the revocation -/

/-- The row is revoked, and no request from the `n`th on has its record. -/
structure ShutOut (n : Nat) (id : String) (s : BearerState) : Prop where
  begun : n ≤ s.requests.length
  row : ∃ r, s.tokens.find? id = some r ∧ r.revokedAt.isSome
  requests : ∀ k q record, n ≤ k → s.requests[k]? = some q → q.phase.record? = some record →
    record.id ≠ id

theorem shutOut_requests {n : Nat} {id : String} {s s' : BearerState} {e : BearerEvent}
    (hs : ShutOut n id s) (h : RequestMoves hmacToken s e s') : n ≤ s'.requests.length ∧
      ∀ k q record, n ≤ k → s'.requests[k]? = some q → q.phase.record? = some record →
        record.id ≠ id := by
  cases h with
  | still requests =>
      rw [requests]
      exact ⟨hs.begun, hs.requests⟩
  | begun config authorization scopes _ requests =>
      rw [requests]
      refine ⟨hs.begun.trans (by simp), fun k q record hk hq hrecord => ?_⟩
      rw [List.getElem?_append] at hq
      split at hq
      · exact hs.requests k q record hk hq hrecord
      · have hmem := List.mem_of_getElem? hq
        obtain rfl := List.mem_singleton.1 hmem
        rw [bearerRequest_record] at hrecord
        cases hrecord
  | looked j old now phase _ found next requests =>
      rw [requests]
      refine ⟨hs.begun.trans (by simp), fun k q record hk hq hrecord => ?_⟩
      rcases getElem?_set_cases hq with ⟨-, rfl⟩ | ⟨-, hq⟩
      · obtain ⟨hfind, hopen, -⟩ := lookupPhase_record next hrecord
        rintro rfl
        obtain ⟨r, hr, hrevoked⟩ := hs.row
        obtain rfl := Option.some.inj (hfind.symm.trans hr)
        rw [hopen] at hrevoked
        cases hrevoked
      · exact hs.requests k q record hk hq hrecord
  | advanced j old phase found next requests =>
      rw [requests]
      refine ⟨hs.begun.trans (by simp), fun k q record hk hq hrecord => ?_⟩
      rcases getElem?_set_cases hq with ⟨rfl, rfl⟩ | ⟨-, hq⟩
      · exact hs.requests k old record hk found (advances_record next hrecord)
      · exact hs.requests k q record hk hq hrecord

theorem shutOut_step {n : Nat} {id : String} {s s' : BearerState} {e : BearerEvent}
    (hs : Known s ∧ ShutOut n id s) (h : bearerStep hmacToken s e = some s') :
    Known s' ∧ ShutOut n id s' := by
  have hmoves := bearer_moves hs.1 h
  obtain ⟨hbegun, hrequests⟩ := shutOut_requests hs.2 (request_moves h)
  obtain ⟨r, hr, hrevoked⟩ := hs.2.row
  obtain ⟨r', hr', hkeeps⟩ := keeps_moves hmoves hr
  refine ⟨known_step hs.1 h, hbegun, ⟨r', hr', ?_⟩, hrequests⟩
  rw [(hkeeps.revoked hrevoked).1]
  exact hrevoked

variable {m u : BearerState} {es fs : List BearerEvent}

theorem textual_run (happart : TellsApart hmacToken peppers texts)
    (hwithin : Meets (bearerStep hmacToken) (Within peppers texts) emptyBearers es)
    (h : exec (bearerStep hmacToken) emptyBearers es = some m) :
    Known m ∧ Textual hmacToken peppers texts m := by
  have hstep : ∀ s e s', Known s ∧ Textual hmacToken peppers texts s → Within peppers texts s e →
      bearerStep hmacToken s e = some s' → Known s' ∧ Textual hmacToken peppers texts s' :=
    fun s e s' hi hC hs => textual_step happart hi hC hs
  exact runs_inv_meets hstep ⟨known_empty, textual_empty⟩ hwithin h

theorem known_run (h : exec (bearerStep hmacToken) emptyBearers es = some m) : Known m :=
  runs_inv (fun _ _ _ hi hs => known_step hi hs) known_empty h

/-- A row that is revoked stays so, and requests that begin later are kept from it. -/
theorem shutOut_run (hknown : Known m) {id : String} {row : ApiTokenRecord}
    (hrow : m.tokens.find? id = some row) (hrevoked : row.revokedAt.isSome)
    (h : exec (bearerStep hmacToken) m fs = some u) : ShutOut m.requests.length id u := by
  have hstart : ShutOut m.requests.length id m := by
    refine ⟨le_rfl, ⟨row, hrow, hrevoked⟩, fun k q record hk hq => ?_⟩
    rw [List.getElem?_eq_none hk] at hq
    cases hq
  have hstep : ∀ s e s', Known s ∧ ShutOut m.requests.length id s →
      bearerStep hmacToken s e = some s' → Known s' ∧ ShutOut m.requests.length id s' :=
    fun s e s' hi hs => shutOut_step hi hs
  have hout : Known u ∧ ShutOut m.requests.length id u := runs_inv hstep ⟨hknown, hstart⟩ h
  exact hout.2

theorem issuedWith_run (hknown : Known m) {id : String} {raw : JsString}
    (hissued : IssuedWith m id raw) (h : exec (bearerStep hmacToken) m fs = some u) :
    IssuedWith u id raw := by
  have hstep : ∀ s e s', Known s ∧ IssuedWith s id raw → bearerStep hmacToken s e = some s' →
      Known s' ∧ IssuedWith s' id raw := fun s e s' hi hs =>
    ⟨known_step hi.1 hs, hi.2.moves (bearer_moves hi.1 hs)⟩
  have hrun : Known u ∧ IssuedWith u id raw := runs_inv hstep ⟨hknown, hissued⟩ h
  exact hrun.2

/-- Who is served has sent the text that the record was issued with. -/
theorem served_text (hs : Textual hmacToken peppers texts u) {k : Nat} {q : BearerRequest}
    (hq : u.requests[k]? = some q) {record : ApiTokenRecord}
    (hserved : q.phase = .ended (.served record)) : IssuedWith u record.id q.raw := by
  refine hs.requests q (List.mem_of_getElem? hq) record ?_
  rw [hserved]
  rfl

/-- The invariant of a run that has two parts. -/
theorem textual_parts (happart : TellsApart hmacToken peppers texts)
    (hwithin : Meets (bearerStep hmacToken) (Within peppers texts) emptyBearers (es ++ fs))
    (h : exec (bearerStep hmacToken) emptyBearers es = some m)
    (h' : exec (bearerStep hmacToken) m fs = some u) : Textual hmacToken peppers texts u :=
  (textual_run happart hwithin (exec_trans h h')).2

/-- A request that begins after a token is revoked is never served as its
bearer, and whoever is served has sent the text the record was issued with. -/
theorem revoked_token_refused (happart : TellsApart hmacToken peppers texts)
    (hwithin : Meets (bearerStep hmacToken) (Within peppers texts) emptyBearers (es ++ fs))
    (h : exec (bearerStep hmacToken) emptyBearers es = some m) {id : String}
    {row : ApiTokenRecord} (hrow : m.tokens.find? id = some row) (hrevoked : row.revokedAt.isSome)
    (h' : exec (bearerStep hmacToken) m fs = some u) {k : Nat} {q : BearerRequest}
    {record : ApiTokenRecord} (hk : m.requests.length ≤ k) (hq : u.requests[k]? = some q)
    (hserved : q.phase = .ended (.served record)) :
    record.id ≠ id ∧ ∃ answer ∈ u.issued, answer.1.id = record.id ∧ answer.2 = q.raw := by
  have hout := shutOut_run (known_run h) hrow hrevoked h'
  have htextual := textual_parts happart hwithin h h'
  refine ⟨hout.requests k q record hk hq ?_, served_text htextual hq hserved⟩
  rw [hserved]
  rfl

/-! ## The two tokens -/

def shownPeppers : Set String := {oldPepper, newPepper}

def shownTexts : Set JsString := {firstToken, secondToken}

theorem shown_apart : TellsApart shownHmac shownPeppers shownTexts := by
  have hne : ∀ pepper ∈ [oldPepper, newPepper], ∀ pepper' ∈ [oldPepper, newPepper],
      shownHmac pepper firstToken ≠ shownHmac pepper' secondToken := by decide
  have hmem : ∀ {pepper}, pepper ∈ shownPeppers → pepper ∈ [oldPepper, newPepper] := by
    rintro pepper (rfl | rfl)
    · exact List.mem_cons_self
    · exact List.mem_cons_of_mem _ List.mem_cons_self
  intro pepper hpepper pepper' hpepper' raw hraw raw' hraw' hsame
  rcases hraw with rfl | rfl
  · rcases hraw' with rfl | rfl
    · rfl
    · exact absurd hsame (hne pepper (hmem hpepper) pepper' (hmem hpepper'))
  · rcases hraw' with rfl | rfl
    · exact absurd hsame.symm (hne pepper' (hmem hpepper') pepper (hmem hpepper))
    · rfl

def inUse (config : TokenConfig) (raw : JsString) : Bool :=
  [oldPepper, newPepper].contains config.pepper &&
    (config.pepperPrevious.all fun pepper => [oldPepper, newPepper].contains pepper) &&
      [firstToken, secondToken].contains raw

/-- A test that is enough for `Within`, where no token is created. -/
def keepsWithin : BearerEvent → Bool
  | .create _ _ _ _ _ _ _ => false
  | .request config authorization _ =>
      authorization.all fun header => inUse config (header.drop 7)
  | .report config token => inUse config token
  | _ => true

theorem inUse_of_test {config : TokenConfig} {raw : JsString} (h : inUse config raw = true) :
    InUse shownPeppers shownTexts config raw := by
  simp only [inUse, Bool.and_eq_true, List.contains_iff_mem, Option.all_eq_true] at h
  obtain ⟨⟨hpepper, hprevious⟩, htext⟩ := h
  have hmem : ∀ {pepper}, pepper ∈ [oldPepper, newPepper] → pepper ∈ shownPeppers := by
    intro pepper hpepper
    simpa [shownPeppers] using hpepper
  refine ⟨hmem hpepper, fun pepper hp => hmem (hprevious pepper hp), ?_⟩
  simpa [shownTexts] using htext

theorem within_of_keepsWithin {es : List BearerEvent} (h : es.all keepsWithin = true) :
    ∀ e ∈ es, ∀ s, Within shownPeppers shownTexts s e := by
  intro e he s
  have htest := List.all_eq_true.1 h e he
  cases e with
  | create => cases htest
  | request config authorization scopes =>
      intro hcurrent
      cases authorization with
      | none => cases hcurrent
      | some header =>
          have hraw : (bearerRequest config (some header) scopes).raw = header.drop 7 := by
            unfold bearerRequest
            dsimp only
            split <;> rfl
          rw [hraw]
          exact inUse_of_test htest
  | report config token => exact fun _ => inUse_of_test htest
  | _ => trivial

theorem within_issue {digit : UInt8} {token : GeneratedToken}
    (h : generateToken (fun _ => digit) (unitsOf "cs_") 1 = some token)
    (htext : token.raw ∈ shownTexts) (id : String) (s : BearerState) :
    Within shownPeppers shownTexts s (issue id digit) := by
  refine ⟨.inl rfl, fun token' htoken => ?_⟩
  obtain rfl : token = token' := Option.some.inj (h.symm.trans htoken)
  exact htext

/-- The first of two tokens of Ada's is revoked, and the second is borne. -/
def firstRevoked : List BearerEvent :=
  [issue "t1" 0, issue "t2" 1, .remove "t1" (.personal "ada") "ada", .removalFind 0,
    .removalRevoke 0 2000]

def secondBorne : List BearerEvent :=
  [bear (shownConfig oldPepper 1 none) secondToken, .lookup 0 3000,
    .findUser 0 (some ⟨none, none, none⟩), .touch 0 3000 3000]

def secondServed : ApiTokenRecord :=
  newRecord shownHmac (shownConfig oldPepper 1 none) ⟨"ada", "ci", ["read:profile"], none, none⟩
    "t2" secondGenerated 1000 1000

theorem second_token_served :
    ∃ m u q, exec (bearerStep shownHmac) emptyBearers firstRevoked = some m ∧
      exec (bearerStep shownHmac) m secondBorne = some u ∧ u.requests[0]? = some q ∧
        q.phase = .ended (.served secondServed) ∧ secondServed.id ≠ "t1" ∧
          ∃ answer ∈ u.issued, answer.1.id = secondServed.id ∧ answer.2 = q.raw := by
  have hwithin : Meets (bearerStep shownHmac) (Within shownPeppers shownTexts) emptyBearers
      (firstRevoked ++ secondBorne) :=
    meets_of_mem (List.forall_mem_cons.2 ⟨within_issue both_generated.1.1 (.inl rfl) "t1",
      List.forall_mem_cons.2 ⟨within_issue both_generated.2.1 (.inr rfl) "t2",
        within_of_keepsWithin (by decide)⟩⟩)
  have hrun : (exec (bearerStep shownHmac) emptyBearers firstRevoked).bind
      (fun m => (exec (bearerStep shownHmac) m secondBorne).bind fun u =>
        u.requests[0]?.map fun q =>
          (m.requests.length, (m.tokens.find? "t1").map ApiTokenRecord.revokedAt, q.phase)) =
        some (0, some (some 2000), .ended (.served secondServed)) := by
    have hbear := @step_bear (shownConfig oldPepper 1 none) secondToken both_generated.2.2
    simp only [firstRevoked, secondBorne, exec, step_issue both_generated.1.1,
      step_issue both_generated.2.1, Option.bind_some, hbear]
    decide
  obtain ⟨m, hm, hrest⟩ := Option.bind_eq_some_iff.1 hrun
  obtain ⟨u, hu, hrest⟩ := Option.bind_eq_some_iff.1 hrest
  obtain ⟨q, hq, hview⟩ := Option.map_eq_some_iff.1 hrest
  simp only [Prod.mk.injEq] at hview
  obtain ⟨hlength, hrow, hserved⟩ := hview
  obtain ⟨row, hrow, hrevoked⟩ := Option.map_eq_some_iff.1 hrow
  have hsome : row.revokedAt.isSome := by
    rw [hrevoked]
    rfl
  exact ⟨m, u, q, hm, hu, hq, hserved, revoked_token_refused shown_apart hwithin hm hrow hsome hu
    (le_of_eq hlength) hq hserved⟩

/-! ## After a report -/

/-- An entry that is being acted on has found the record issued with its text,
and one that is a true positive a row that is revoked. -/
structure Judged (s : BearerState) : Prop where
  held : ∀ entry ∈ s.entries, ∀ record, entry.phase = .revoke record →
    IssuedWith s record.id entry.token
  positive : ∀ entry ∈ s.entries, entry.phase = .ended (some .truePositive) →
    ∃ id row, IssuedWith s id entry.token ∧ s.tokens.find? id = some row ∧ row.revokedAt.isSome

/-- What an entry that goes on to a revocation, or to its end as a true positive,
has found. -/
theorem entryPhase_found {t : ApiTokenRecords} {entry : LeakEntry} {phase : LeakPhase}
    (h : entryPhase hmacToken t entry = some phase)
    (hphase : (∃ record, phase = .revoke record) ∨ phase = .ended (some .truePositive)) :
    ∃ record, t.find? record.id = some record ∧
      (∃ pepper, (pepper = entry.config.pepper ∨ entry.phase = .previous pepper) ∧
        record.tokenHmac = hmacToken pepper entry.token) ∧ phase = judgeRecord record := by
  have hrow : ∀ {pepper record},
      (pepper = entry.config.pepper ∨ entry.phase = .previous pepper) →
      findByHmac t (hmacToken pepper entry.token) = some record →
      phase = judgeRecord record → ∃ record, t.find? record.id = some record ∧
        (∃ pepper, (pepper = entry.config.pepper ∨ entry.phase = .previous pepper) ∧
          record.tokenHmac = hmacToken pepper entry.token) ∧ phase = judgeRecord record := by
    intro pepper record hunder hfind hjudge
    obtain ⟨hrow, hhmac⟩ := find?_of_findByHmac hfind
    exact ⟨record, hrow, ⟨pepper, hunder, hhmac⟩, hjudge⟩
  unfold entryPhase at h
  split at h
  · cases hfind : findByHmac t (hmacToken entry.config.pepper entry.token) with
    | none =>
        rw [hfind] at h
        cases hprevious : entry.config.pepperPrevious with
        | none =>
            rw [hprevious] at h
            cases h
            rcases hphase with ⟨record, hphase⟩ | hphase <;> cases hphase
        | some pepper =>
            rw [hprevious] at h
            cases h
            rcases hphase with ⟨record, hphase⟩ | hphase <;> cases hphase
    | some record =>
        rw [hfind] at h
        exact hrow (.inl rfl) hfind (Option.some.inj h).symm
  · next pepper hheld =>
    split at h
    · next record hfind => exact hrow (.inr hheld) hfind (Option.some.inj h).symm
    · cases h
      rcases hphase with ⟨record, hphase⟩ | hphase <;> cases hphase
  · cases h

/-- After the statement the row is revoked, by it or by another before. -/
theorem revoked_after {t : ApiTokenRecords} {record : ApiTokenRecord} (h : Tells t record)
    (now : Millis) (reason : ApiTokenRevokedReason) :
    ∃ row, (revokeRecord t now record.id reason).1.find? record.id = some row ∧
      row.revokedAt.isSome := by
  obtain ⟨r, hr, -⟩ := h
  have hid : r.id = record.id := (Table.find?_eq_some.1 hr).2
  rw [revokeRecord, Table.find?_update, hr]
  refine ⟨_, rfl, ?_⟩
  dsimp only
  split
  · rfl
  · next hopen =>
      cases hrevoked : r.revokedAt with
      | none => exact absurd (by simp [isOpen, hid, hrevoked]) hopen
      | some at' => rfl

/-- `Judged`, of one entry. -/
structure JudgedEntry (s : BearerState) (entry : LeakEntry) : Prop where
  held : ∀ record, entry.phase = .revoke record → IssuedWith s record.id entry.token
  positive : entry.phase = .ended (some .truePositive) →
    ∃ id row, IssuedWith s id entry.token ∧ s.tokens.find? id = some row ∧ row.revokedAt.isSome

theorem judged_iff {s : BearerState} : Judged s ↔ ∀ entry ∈ s.entries, JudgedEntry s entry :=
  ⟨fun h entry hentry => ⟨h.held entry hentry, h.positive entry hentry⟩,
    fun h => ⟨fun entry hentry => (h entry hentry).held,
      fun entry hentry => (h entry hentry).positive⟩⟩

theorem JudgedEntry.moves {s s' : BearerState} {e : BearerEvent} {entry : LeakEntry}
    (h : JudgedEntry s entry) (hmoves : Moves hmacToken s e s') : JudgedEntry s' entry where
  held := fun record hphase => (h.held record hphase).moves hmoves
  positive := by
    intro hphase
    obtain ⟨id, row, hissued, hrow, hrevoked⟩ := h.positive hphase
    obtain ⟨row', hrow', hkeeps⟩ := keeps_moves hmoves hrow
    exact ⟨id, row', hissued.moves hmoves, hrow', by rwa [(hkeeps.revoked hrevoked).1]⟩

theorem judgedEntry_reported {s : BearerState} (config : TokenConfig) (token : JsString) :
    JudgedEntry s (leakEntry config token) where
  held := fun record hphase => absurd hphase (leakEntry_phase config token record)
  positive := by
    intro hphase
    unfold leakEntry at hphase
    dsimp only at hphase
    split at hphase <;> cases hphase

/-- What a lookup goes on to is about the record issued with the text of the entry. -/
theorem judgedEntry_looked (happart : TellsApart hmacToken peppers texts) {s : BearerState}
    (htextual : Textual hmacToken peppers texts s) {entry : LeakEntry}
    (hentry : entry ∈ s.entries) {phase : LeakPhase}
    (hnext : entryPhase hmacToken s.tokens entry = some phase) :
    JudgedEntry s { entry with phase } := by
  have hfound : (∃ record, phase = .revoke record) ∨ phase = .ended (some .truePositive) →
      ∃ record, s.tokens.find? record.id = some record ∧ IssuedWith s record.id entry.token ∧
        phase = judgeRecord record := by
    intro hphase
    obtain ⟨record, hrow, ⟨pepper, hunder, hhmac⟩, hjudge⟩ := entryPhase_found hnext hphase
    rcases htextual.inside.reported entry hentry with ⟨label, hended⟩ | ⟨huse, hprevious⟩
    · exact absurd hended (entryPhase_running hnext label)
    · have hpepper : pepper ∈ peppers := by
        rcases hunder with rfl | hheld
        · exact huse.pepper
        · exact hprevious pepper hheld
      exact ⟨record, hrow, found_issued happart htextual hpepper huse.text hrow hhmac, hjudge⟩
  constructor
  · intro record hphase
    obtain ⟨row, -, hissued, hjudge⟩ := hfound (.inl ⟨record, hphase⟩)
    obtain rfl : row = record := by
      rw [show phase = .revoke record from hphase, judgeRecord] at hjudge
      split at hjudge
      · cases hjudge
      · exact (LeakPhase.revoke.inj hjudge).symm
    exact hissued
  · intro hphase
    obtain ⟨row, hrow, hissued, hjudge⟩ := hfound (.inr hphase)
    rw [show phase = .ended (some .truePositive) from hphase, judgeRecord] at hjudge
    split at hjudge
    · next hrevoked => exact ⟨row.id, row, hissued, hrow, hrevoked⟩
    · cases hjudge

theorem judged_moves (happart : TellsApart hmacToken peppers texts) {s s' : BearerState}
    {e : BearerEvent} (hknown : Known s) (htextual : Textual hmacToken peppers texts s)
    (hs : Judged s) (hmoves : Moves hmacToken s e s') (h : EntryMoves hmacToken s e s') :
    Judged s' := by
  have hold : ∀ entry ∈ s.entries, JudgedEntry s' entry := fun entry hentry =>
    (judged_iff.1 hs entry hentry).moves hmoves
  refine judged_iff.2 fun entry hentry => ?_
  cases h with
  | still entries =>
      rw [entries] at hentry
      exact hold entry hentry
  | reported config token _ entries =>
      rw [entries, List.mem_append, List.mem_singleton] at hentry
      rcases hentry with hmem | rfl
      · exact hold entry hmem
      · exact judgedEntry_reported config token
  | looked j old phase found next _ entries =>
      rw [entries] at hentry
      rcases List.mem_or_eq_of_mem_set hentry with hmem | rfl
      · exact hold entry hmem
      · exact (judgedEntry_looked happart htextual (List.mem_of_getElem? found) next).moves hmoves
  | revoked j old record now found holds tokens entries =>
      rw [entries] at hentry
      rcases List.mem_or_eq_of_mem_set hentry with hmem | rfl
      · exact hold entry hmem
      · have hmem := List.mem_of_getElem? found
        refine ⟨fun other hphase => (by cases hphase), fun _ => ?_⟩
        obtain ⟨row, hrow, hrevoked⟩ :=
          revoked_after (hknown.entries old hmem record holds) now .leaked
        exact ⟨record.id, row, (hold old hmem).held record holds, tokens ▸ hrow, hrevoked⟩
  | failed j old found entries =>
      rw [entries] at hentry
      rcases List.mem_or_eq_of_mem_set hentry with hmem | rfl
      · exact hold entry hmem
      · constructor
        · intro record hphase
          cases hphase
        · intro hphase
          cases hphase

theorem judged_run (happart : TellsApart hmacToken peppers texts)
    (hwithin : Meets (bearerStep hmacToken) (Within peppers texts) emptyBearers es)
    (h : exec (bearerStep hmacToken) emptyBearers es = some m) :
    (Known m ∧ Textual hmacToken peppers texts m) ∧ Judged m := by
  have hstep : ∀ s e s', (Known s ∧ Textual hmacToken peppers texts s) ∧ Judged s →
      Within peppers texts s e → bearerStep hmacToken s e = some s' →
      (Known s' ∧ Textual hmacToken peppers texts s') ∧ Judged s' :=
    fun s e s' hi hC hs => ⟨textual_step happart hi.1 hC hs,
      judged_moves happart hi.1.1 hi.1.2 hi.2 (bearer_moves hi.1.1 hs) (entry_moves hs)⟩
  have hstart : Judged emptyBearers :=
    ⟨fun _ hentry => absurd hentry List.not_mem_nil, fun _ hentry => absurd hentry List.not_mem_nil⟩
  exact runs_inv_meets hstep ⟨⟨known_empty, textual_empty⟩, hstart⟩ hwithin h

/-- Once an entry of a report is answered as a true positive, no request that
begins later with the reported text is served, whoever revoked the token and
whatever the pepper is by then. No text is issued twice. -/
theorem reported_token_refused (happart : TellsApart hmacToken peppers texts)
    (hwithin : Meets (bearerStep hmacToken) (Within peppers texts) emptyBearers (es ++ fs))
    (h : exec (bearerStep hmacToken) emptyBearers es = some m) {entry : LeakEntry}
    (hentry : entry ∈ m.entries) (hlabel : entry.phase = .ended (some .truePositive))
    (h' : exec (bearerStep hmacToken) m fs = some u) (hissued : (u.issued.map Prod.snd).Nodup)
    {k : Nat} {q : BearerRequest} (hk : m.requests.length ≤ k) (hq : u.requests[k]? = some q)
    (hraw : q.raw = entry.token) (record : ApiTokenRecord) :
    q.phase ≠ .ended (.served record) := by
  intro hserved
  obtain ⟨⟨hknown, htextual⟩, hjudged⟩ := judged_run happart (meets_left hwithin) h
  obtain ⟨id, row, hwith, hrow, hrevoked⟩ := hjudged.positive entry hentry hlabel
  have hout := shutOut_run hknown hrow hrevoked h'
  have hne : record.id ≠ id := by
    refine hout.requests k q record hk hq ?_
    rw [hserved]
    rfl
  obtain ⟨answer, hanswer, hid, htext⟩ := issuedWith_run hknown hwith h'
  obtain ⟨answer', hanswer', hid', htext'⟩ :=
    served_text (textual_parts happart hwithin h h') hq hserved
  have hsame : answer = answer' :=
    List.inj_on_of_nodup_map hissued hanswer hanswer' (htext.trans (hraw.symm.trans htext'.symm))
  rw [hsame] at hid
  exact hne (hid'.symm.trans hid)

/-- The first token is reported under a new pepper, and borne again. -/
def firstReported : List BearerEvent :=
  [issue "t1" 0, .report (shownConfig newPepper 2 (some oldPepper)) firstToken, .entryLookup 0,
    .entryLookup 0, .entryRevoke 0 2000]

def firstBorne : List BearerEvent :=
  [bear (shownConfig newPepper 2 (some oldPepper)) firstToken, .lookup 0 3000, .lookup 0 3000]

theorem reported_first_refused :
    ∃ m u q row, exec (bearerStep shownHmac) emptyBearers firstReported = some m ∧
      exec (bearerStep shownHmac) m firstBorne = some u ∧ u.requests[0]? = some q ∧
        m.tokens.find? "t1" = some row ∧ q.phase ≠ .ended (.served row) := by
  have hwithin : Meets (bearerStep shownHmac) (Within shownPeppers shownTexts) emptyBearers
      (firstReported ++ firstBorne) :=
    meets_of_mem (List.forall_mem_cons.2 ⟨within_issue both_generated.1.1 (.inl rfl) "t1",
      within_of_keepsWithin (by decide)⟩)
  have hrun : (exec (bearerStep shownHmac) emptyBearers firstReported).bind
      (fun m => (exec (bearerStep shownHmac) m firstBorne).bind fun u =>
        u.requests[0]?.bind fun q => m.entries[0]?.bind fun entry =>
          (m.tokens.find? "t1").map fun _ =>
            (m.requests.length, entry.phase, decide (q.raw = entry.token),
              decide (u.issued.map Prod.snd).Nodup)) =
        some (0, .ended (some .truePositive), true, true) := by
    have hparses : (parseToken firstToken
        (shownConfig newPepper 2 (some oldPepper)).pre).isOk = true := both_generated.1.2
    have hbear := @step_bear (shownConfig newPepper 2 (some oldPepper)) firstToken hparses
    simp only [firstReported, firstBorne, exec, step_issue both_generated.1.1, Option.bind_some,
      hbear, step_report hparses]
    decide
  obtain ⟨m, hm, hrest⟩ := Option.bind_eq_some_iff.1 hrun
  obtain ⟨u, hu, hrest⟩ := Option.bind_eq_some_iff.1 hrest
  obtain ⟨q, hq, hrest⟩ := Option.bind_eq_some_iff.1 hrest
  obtain ⟨entry, hentry, hrest⟩ := Option.bind_eq_some_iff.1 hrest
  obtain ⟨row, hrow, hview⟩ := Option.map_eq_some_iff.1 hrest
  simp only [Prod.mk.injEq] at hview
  obtain ⟨hlength, hlabel, hraw, hnodup⟩ := hview
  exact ⟨m, u, q, row, hm, hu, hq, hrow, reported_token_refused shown_apart hwithin hm
    (List.mem_of_getElem? hentry) hlabel hu (of_decide_eq_true hnodup) (le_of_eq hlength) hq
    (of_decide_eq_true hraw) row⟩

end CleanStack.ApiToken
