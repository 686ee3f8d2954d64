import CleanStack.Proofs.TokenBearer

/-!
# A new pepper

After the pepper has been replaced in every process, a bearer is looked up under
the new one and then under the previous one, in two statements. Between them
another request of the same bearer may rehash the row, and then neither finds it:
the bearer of a good token is refused. That is all that can go wrong. A row that
is under the new pepper stays there, so a request that begins after the rehash is
served.

`Rotating` is what carries the run: the row is under the new pepper, or where it
was when the request began, and the request is refused only in the first case.
-/

namespace CleanStack.ApiToken

open CleanStack.Lib CleanStack.Kit

variable {hmacToken : String → JsString → String} {peppers : Set String} {texts : Set JsString}

/-! ## One row for an HMAC, one text for a record -/

/-- What the unique index keeps. -/
def Distinct (t : ApiTokenRecords) : Prop :=
  ∀ r ∈ t.rows, ∀ r' ∈ t.rows, r.tokenHmac = r'.tokenHmac → r = r'

theorem distinct_update {t : ApiTokenRecords} (ht : Distinct t) {p : ApiTokenRecord → Bool}
    {f : ApiTokenRecord → ApiTokenRecord} (hf : ∀ r, Keyed.key (f r) = Keyed.key r)
    (hsame : ∀ r, (f r).tokenHmac = r.tokenHmac) : Distinct (t.update p f hf) := by
  intro r hr r' hr' hhmac
  obtain ⟨row, hrow, rfl⟩ := (Table.mem_update hf).1 hr
  obtain ⟨row', hrow', rfl⟩ := (Table.mem_update hf).1 hr'
  have hkept : ∀ r, (if p r = true then f r else r).tokenHmac = r.tokenHmac := by
    intro r
    split
    · exact hsame r
    · rfl
  rw [hkept, hkept] at hhmac
  rw [ht row hrow row' hrow' hhmac]

theorem not_taken {t : ApiTokenRecords} {id hmac : String} (h : ¬ hmacTaken t id hmac = true)
    {r : ApiTokenRecord} (hr : r ∈ t.rows) (hhmac : r.tokenHmac = hmac) : r.id = id := by
  by_contra hne
  exact h (List.any_eq_true.2 ⟨r, hr, by simp [hhmac, hne]⟩)

theorem distinct_insert {t u : ApiTokenRecords} (ht : Distinct t) {row : ApiTokenRecord}
    (h : insertRecord t row = some u) : Distinct u := by
  have hinsert := insert_of_insertRecord h
  have hfree : ∀ r ∈ t.rows, r.tokenHmac ≠ row.tokenHmac := by
    intro r hr hhmac
    unfold insertRecord at h
    split at h
    · cases h
    · next hfree => exact Table.insert_fresh hinsert r hr (not_taken hfree hr hhmac)
  intro r hr r' hr' hhmac
  rcases (Table.mem_insert hinsert).1 hr with rfl | hr
  · rcases (Table.mem_insert hinsert).1 hr' with rfl | hr'
    · rfl
    · exact absurd hhmac.symm (hfree r' hr')
  · rcases (Table.mem_insert hinsert).1 hr' with rfl | hr'
    · exact absurd hhmac (hfree r hr)
    · exact ht r hr r' hr' hhmac

theorem distinct_rehash {t : ApiTokenRecords} (ht : Distinct t) (id hmac : String)
    (pepperVersion : Nat) : Distinct (rehash t id hmac pepperVersion) := by
  unfold rehash
  split
  · exact ht
  · next hfree =>
      intro r hr r' hr' hhmac
      obtain ⟨row, hrow, rfl⟩ := (Table.mem_update _).1 hr
      obtain ⟨row', hrow', rfl⟩ := (Table.mem_update _).1 hr'
      by_cases hid : row.id = id
      · by_cases hid' : row'.id = id
        · rw [Table.eq_of_key hrow hrow' (hid.trans hid'.symm)]
        · simp only [hid, hid', decide_true, decide_false, if_true] at hhmac
          exact absurd (not_taken hfree hrow' hhmac.symm) hid'
      · by_cases hid' : row'.id = id
        · simp only [hid, hid', decide_true, decide_false, if_true] at hhmac
          exact absurd (not_taken hfree hrow hhmac) hid
        · simp only [hid, hid', decide_false] at hhmac ⊢
          exact ht row hrow row' hrow' hhmac

theorem distinct_moves {s s' : BearerState} {e : BearerEvent} (hs : Distinct s.tokens)
    (h : Moves hmacToken s e s') : Distinct s'.tokens := by
  cases h with
  | still tokens _ _ _ => rwa [tokens]
  | created _ _ _ _ _ _ inserted _ _ _ => exact distinct_insert hs inserted
  | revoked p now reason _ tokens _ _ _ _ _ =>
      rw [tokens]
      exact distinct_update hs (key_revokedRecord now reason) fun _ => rfl
  | used k q record floorAt now _ _ _ tokens _ _ _ =>
      rw [tokens, touchLastUsed]
      exact distinct_update hs (key_usedRecord now) fun _ => rfl
  | rehashed k q record now _ _ tokens _ _ _ =>
      rw [tokens]
      exact distinct_rehash hs _ _ _

/-- An id is issued once, for a row that is there. -/
structure OneAnswer (s : BearerState) : Prop where
  nodup : (s.issued.map fun answer => answer.1.id).Nodup
  rows : ∀ answer ∈ s.issued, ∃ r, s.tokens.find? answer.1.id = some r

theorem oneAnswer_moves {s s' : BearerState} {e : BearerEvent} (hs : OneAnswer s)
    (h : Moves hmacToken s e s') : OneAnswer s' := by
  have hrows : ∀ answer ∈ s.issued, ∃ r, s'.tokens.find? answer.1.id = some r := by
    intro answer hanswer
    obtain ⟨r, hr⟩ := hs.rows answer hanswer
    obtain ⟨r', hr', -⟩ := keeps_moves h hr
    exact ⟨r', hr'⟩
  have hsame : s'.issued = s.issued → OneAnswer s' := by
    intro issued
    rw [← issued] at hrows
    exact ⟨issued ▸ hs.nodup, hrows⟩
  cases h with
  | still _ issued _ _ => exact hsame issued
  | created record raw pepper _ _ _ inserted issued _ _ =>
      have hinsert := insert_of_insertRecord inserted
      constructor
      · rw [issued, List.map_append, List.nodup_append]
        refine ⟨hs.nodup, List.nodup_singleton _, ?_⟩
        rintro id hid other hother rfl
        obtain ⟨answer, hanswer, rfl⟩ := List.mem_map.1 hid
        obtain ⟨r, hr⟩ := hs.rows answer hanswer
        obtain ⟨hmem, hkey⟩ := Table.find?_eq_some.1 hr
        exact Table.insert_fresh hinsert r hmem (hkey.trans (List.mem_singleton.1 hother))
      · intro answer hanswer
        rw [issued, List.mem_append, List.mem_singleton] at hanswer
        rcases hanswer with hold | rfl
        · exact hrows answer hold
        · exact ⟨record, (Table.find?_insert hinsert _).trans (if_pos rfl)⟩
  | revoked _ _ _ _ _ issued _ _ _ _ => exact hsame issued
  | used _ _ _ _ _ _ _ _ _ issued _ _ => exact hsame issued
  | rehashed _ _ _ _ _ _ _ issued _ _ => exact hsame issued

theorem OneAnswer.text {s : BearerState} (hs : OneAnswer s) {id : String} {raw raw' : JsString}
    (h : IssuedWith s id raw) (h' : IssuedWith s id raw') : raw = raw' := by
  obtain ⟨answer, hanswer, hid, rfl⟩ := h
  obtain ⟨answer', hanswer', hid', rfl⟩ := h'
  rw [List.inj_on_of_nodup_map hs.nodup hanswer hanswer' (hid.trans hid'.symm)]

/-- What is true of every state that is reached. -/
structure Reached (hmacToken : String → JsString → String) (peppers : Set String)
    (texts : Set JsString) (s : BearerState) : Prop where
  known : Known s
  textual : Textual hmacToken peppers texts s
  distinct : Distinct s.tokens
  oneAnswer : OneAnswer s

theorem reached_step (happart : TellsApart hmacToken peppers texts) {s s' : BearerState}
    {e : BearerEvent} (hs : Reached hmacToken peppers texts s)
    (hwithin : Within peppers texts s e) (h : bearerStep hmacToken s e = some s') :
    Reached hmacToken peppers texts s' := by
  have hmoves := bearer_moves hs.known h
  obtain ⟨hknown, htextual⟩ := textual_step happart ⟨hs.known, hs.textual⟩ hwithin h
  exact ⟨hknown, htextual, distinct_moves hs.distinct hmoves, oneAnswer_moves hs.oneAnswer hmoves⟩

theorem reached_run (happart : TellsApart hmacToken peppers texts) {m : BearerState}
    {es : List BearerEvent}
    (hwithin : Meets (bearerStep hmacToken) (Within peppers texts) emptyBearers es)
    (h : exec (bearerStep hmacToken) emptyBearers es = some m) :
    Reached hmacToken peppers texts m := by
  have hstart : Reached hmacToken peppers texts emptyBearers :=
    ⟨known_empty, textual_empty, fun _ h => absurd h List.not_mem_nil, List.nodup_nil,
      fun _ h => absurd h List.not_mem_nil⟩
  exact runs_inv_meets (fun _ _ _ hi hC hs => reached_step happart hi hC hs) hstart hwithin h

/-! ## Requests that are still going on -/

def BearerRequest.Runs (q : BearerRequest) : Prop := ∀ outcome, q.phase ≠ .ended outcome

/-! ## One token, and one request with it -/

section Rotation

variable (config : TokenConfig) (id : String) (raw : JsString) (scopes : List String) (k : Nat)
  (row : ApiTokenRecord)

/-- The user and the token are good, whatever begins to look a token up runs with
the new pepper, no statement fails but those whose failure is passed over, and no
other token is issued with this text. -/
def Untroubled (s : BearerState) : BearerEvent → Prop
  | .create config' _ _ random fuel _ _ =>
      ∀ token, generateToken random config'.pre fuel = some token → token.raw ≠ raw
  | .request config' authorization scopes =>
      (bearerRequest config' authorization scopes).Runs → config' = config
  | .lookup j now => j = k → ∀ r, s.tokens.find? id = some r →
      r.revokedAt = none ∧ ∀ expires, r.expiresAt = some expires → now ≤ expires
  | .findUser j user => j = k → ∃ account : BearerUser,
      user = some account ∧ account.deletedAt = none ∧
        ∀ q record now, s.requests[j]? = some q → q.phase = .user record now →
          isBanned account now = false
  | .requestFails j => j = k → ∃ q, s.requests[j]? = some q ∧
      ((∃ record now, q.phase = .rehash record now) ∨ ∃ record, q.phase = .touch record)
  | _ => True

/-- The record the request carries on with. -/
def Fits (record : ApiTokenRecord) : Prop :=
  record.id = id ∧ ∀ scope ∈ scopes, scope ∈ record.scopes

/-- The row is under the new pepper. -/
def Moved (hmacToken : String → JsString → String) (s : BearerState) : Prop :=
  ∃ r, s.tokens.find? id = some r ∧ r.tokenHmac = hmacToken config.pepper raw

/-- How far the request has come. -/
def Going (hmacToken : String → JsString → String) (s : BearerState) : BearerPhase → Prop
  | .current => True
  | .previous pepper =>
      config.pepperPrevious = some pepper ∧ row.tokenHmac ≠ hmacToken config.pepper raw
  | .rehash record _ => Fits id scopes record
  | .user record _ => Fits id scopes record
  | .touch record => Fits id scopes record
  | .ended (.served record) => record.id = id
  | .ended (.refused status) =>
      status = 401 ∧ row.tokenHmac ≠ hmacToken config.pepper raw ∧ Moved config id raw hmacToken s

structure Rotating (hmacToken : String → JsString → String) (peppers : Set String)
    (texts : Set JsString) (s : BearerState) : Prop where
  reached : Reached hmacToken peppers texts s
  configs : ∀ q ∈ s.requests, q.Runs → q.config = config
  issued : IssuedWith s id raw
  only : ∀ answer ∈ s.issued, answer.2 = raw → answer.1.id = id
  kept : ∃ r, s.tokens.find? id = some r ∧ SameFacts row r ∧
    (r.tokenHmac = hmacToken config.pepper raw ∨ r.tokenHmac = row.tokenHmac)
  request : ∃ q, s.requests[k]? = some q ∧ q.config = config ∧ q.raw = raw ∧
    q.scopes = scopes ∧ Going config id raw scopes row hmacToken s q.phase

variable {config id raw scopes k row}

/-- A row is where it was, or under the new pepper. -/
theorem hmac_moves {s s' : BearerState} {e : BearerEvent} (hs : Reached hmacToken peppers texts s)
    (hconfigs : ∀ q ∈ s.requests, q.Runs → q.config = config) (hissued : IssuedWith s id raw)
    (h : Moves hmacToken s e s') {r : ApiTokenRecord} (hr : s.tokens.find? id = some r) :
    ∃ r', s'.tokens.find? id = some r' ∧ Keeps r r' ∧
      (r'.tokenHmac = hmacToken config.pepper raw ∨ r'.tokenHmac = r.tokenHmac) := by
  obtain ⟨r', hr', hkeeps⟩ := keeps_moves h hr
  refine ⟨r', hr', hkeeps, ?_⟩
  cases h with
  | still tokens _ _ _ =>
      rw [tokens, hr] at hr'
      cases hr'
      exact .inr rfl
  | created _ _ _ _ _ _ inserted _ _ _ =>
      rw [Table.find?_insert_of_find? (insert_of_insertRecord inserted) hr] at hr'
      cases hr'
      exact .inr rfl
  | revoked p now reason _ tokens _ _ _ _ _ =>
      rw [tokens, Table.find?_update, hr] at hr'
      cases hr'
      dsimp only
      split
      · exact .inr rfl
      · exact .inr rfl
  | used j q record floorAt now _ _ _ tokens _ _ _ =>
      rw [tokens, touchLastUsed, Table.find?_update, hr] at hr'
      cases hr'
      dsimp only
      split
      · exact .inr rfl
      · exact .inr rfl
  | rehashed j q record now found held tokens _ _ _ =>
      rw [tokens, rehash] at hr'
      split at hr'
      · rw [hr] at hr'
        cases hr'
        exact .inr rfl
      · rw [Table.find?_update, hr] at hr'
        cases hr'
        dsimp only
        split
        · next hid =>
            have hmem := List.mem_of_getElem? found
            have hsame : record.id = id :=
              (of_decide_eq_true hid).symm.trans (Table.find?_eq_some.1 hr).2
            have hwith := hs.textual.requests q hmem record (by rw [held]; rfl)
            rw [hsame] at hwith
            have hruns : q.Runs := fun outcome hended => by
              rw [held] at hended
              cases hended
            rw [hs.oneAnswer.text hissued hwith, ← hconfigs q hmem hruns]
            exact .inl rfl
        · exact .inr rfl

/-- A record with the HMAC of the text, under whatever pepper, is the row. -/
theorem found_is_row (happart : TellsApart hmacToken peppers texts) {s : BearerState}
    (hs : Reached hmacToken peppers texts s)
    (honly : ∀ answer ∈ s.issued, answer.2 = raw → answer.1.id = id)
    {pepper : String} (hpepper : pepper ∈ peppers) (hraw : raw ∈ texts)
    {record r : ApiTokenRecord} (hr : s.tokens.find? id = some r)
    (h : findByHmac s.tokens (hmacToken pepper raw) = some record) : record = r := by
  obtain ⟨hrow, hhmac⟩ := find?_of_findByHmac h
  obtain ⟨answer, hanswer, hid, htext⟩ :=
    found_issued happart hs.textual hpepper hraw hrow hhmac
  have hsame : record.id = id := hid.symm.trans (honly answer hanswer htext)
  rw [hsame, hr] at hrow
  exact (Option.some.inj hrow).symm

/-- A lookup misses only a row that is under another pepper. -/
theorem missed {t : ApiTokenRecords} {hmac : String} (h : findByHmac t hmac = none)
    {r : ApiTokenRecord} (hr : t.find? id = some r) : r.tokenHmac ≠ hmac := by
  have hall := List.find?_eq_none.1 h r (Table.find?_eq_some.1 hr).1
  simpa using hall

theorem checkScopes_fits {record : ApiTokenRecord} (h : Fits id scopes record) (now : Millis) :
    checkScopes scopes record now = .user record now := by
  refine if_pos (List.all_eq_true.2 fun scope hscope => ?_)
  exact List.contains_iff_mem.2 (h.2 scope hscope)

theorem checkRecord_good {record : ApiTokenRecord} (hfits : Fits id scopes record)
    {needsRehash : Bool} {now : Millis} (hopen : record.revokedAt = none)
    (hexpires : ∀ expires, record.expiresAt = some expires → now ≤ expires) :
    checkRecord scopes record needsRehash now =
      if needsRehash then .rehash record now else .user record now := by
  have hlive : record.expiresAt.any (fun expires => expires < now) = false := by
    cases h : record.expiresAt with
    | none => rfl
    | some expires =>
        have := hexpires expires h
        simpa using this
  rw [checkRecord, hopen, hlive, checkScopes_fits hfits]
  rfl

/-- A lookup of the request: it finds the row, or leaves it to the second lookup,
or the row has been rehashed in between. -/
theorem going_looked (happart : TellsApart hmacToken peppers texts)
    (hunder : row.tokenHmac = hmacToken config.pepper raw ∨
      ∃ previous, config.pepperPrevious = some previous ∧
        row.tokenHmac = hmacToken previous raw)
    (hscopes : ∀ scope ∈ scopes, scope ∈ row.scopes) {s : BearerState}
    (hs : Rotating config id raw scopes k row hmacToken peppers texts s) {q : BearerRequest}
    (hmem : q ∈ s.requests) (hconfig : q.config = config) (hraw : q.raw = raw)
    (hqscopes : q.scopes = scopes)
    (hgoing : Going config id raw scopes row hmacToken s q.phase) {now : Millis}
    (hgood : ∀ r, s.tokens.find? id = some r →
      r.revokedAt = none ∧ ∀ expires, r.expiresAt = some expires → now ≤ expires)
    {phase : BearerPhase} (h : lookupPhase hmacToken s.tokens q now = some phase) :
    Going config id raw scopes row hmacToken s phase := by
  obtain ⟨r, hr, hfacts, hhmac⟩ := hs.kept
  obtain ⟨hopen, hexpires⟩ := hgood r hr
  have hfits : Fits id scopes r :=
    ⟨(Table.find?_eq_some.1 hr).2, fun scope hscope => hfacts.2.2.1 ▸ hscopes scope hscope⟩
  rcases hs.reached.textual.inside.borne q hmem with ⟨outcome, hended⟩ | ⟨huse, hsecond⟩
  · exact absurd hended (lookupPhase_running h outcome)
  rw [hconfig, hraw] at huse
  unfold lookupPhase at h
  split at h
  · cases h
    rw [hconfig, hraw]
    cases hfind : findByHmac s.tokens (hmacToken config.pepper raw) with
    | some record =>
        obtain rfl :=
          found_is_row happart hs.reached hs.only huse.pepper huse.text hr hfind
        rw [afterCurrent, hqscopes, checkRecord_good hfits hopen hexpires]
        exact hfits
    | none =>
        have hmiss := missed hfind hr
        have hrow : row.tokenHmac ≠ hmacToken config.pepper raw := by
          rcases hhmac with hmoved | hstill
          · exact absurd hmoved hmiss
          · exact hstill ▸ hmiss
        obtain ⟨previous, hprevious, -⟩ := hunder.resolve_left hrow
        rw [afterCurrent, hconfig, hprevious]
        exact ⟨hprevious, hrow⟩
  · next pepper hphase =>
      cases h
      rw [hphase] at hgoing
      obtain ⟨hprevious, hrow⟩ := hgoing
      rw [hraw]
      cases hfind : findByHmac s.tokens (hmacToken pepper raw) with
      | some record =>
          obtain rfl :=
            found_is_row happart hs.reached hs.only (hsecond pepper hphase) huse.text hr hfind
          rw [afterPrevious, hqscopes, checkRecord_good hfits hopen hexpires]
          exact hfits
      | none =>
          have hmiss := missed hfind hr
          obtain ⟨previous, hprevious', hrow'⟩ := hunder.resolve_left hrow
          obtain rfl : previous = pepper := Option.some.inj (hprevious'.symm.trans hprevious)
          refine ⟨rfl, hrow, r, hr, hhmac.resolve_right fun hstill => ?_⟩
          exact hmiss (hstill.trans hrow')
  · cases h

theorem going_advances {s : BearerState} {e : BearerEvent}
    (huntroubled : Untroubled config id raw k s e) {q : BearerRequest}
    (hq : s.requests[k]? = some q) (hqscopes : q.scopes = scopes)
    (hgoing : Going config id raw scopes row hmacToken s q.phase) {phase : BearerPhase}
    (h : Advances e k q phase) : Going config id raw scopes row hmacToken s phase := by
  cases h with
  | rehashed record now _ held =>
      rw [held] at hgoing
      rw [hqscopes, checkScopes_fits hgoing]
      exact hgoing
  | checked record now user event held =>
      subst event
      obtain ⟨account, rfl, hthere, hbanned⟩ := huntroubled rfl
      have hnot := hbanned q record now hq held
      rw [held] at hgoing
      have hgood : checkUser record now (some account) = .touch record := by
        simp [checkUser, hthere, hnot]
      rw [hgood]
      exact hgoing
  | touched record floorAt now _ held =>
      rw [held] at hgoing
      exact hgoing.1
  | failed phase event next =>
      subst event
      obtain ⟨q', hq', hphase⟩ := huntroubled rfl
      obtain rfl := Option.some.inj (hq'.symm.trans hq)
      rcases hphase with ⟨record, now, hphase⟩ | ⟨record, hphase⟩
      · rw [hphase] at hgoing
        rw [failedPhase, hphase] at next
        cases next
        rw [hqscopes, checkScopes_fits hgoing]
        exact hgoing
      · rw [hphase] at hgoing
        rw [failedPhase, hphase] at next
        cases next
        exact hgoing.1

theorem Going.moves {s s' : BearerState} {e : BearerEvent}
    (hs : Rotating config id raw scopes k row hmacToken peppers texts s)
    (h : Moves hmacToken s e s') {phase : BearerPhase}
    (hgoing : Going config id raw scopes row hmacToken s phase) :
    Going config id raw scopes row hmacToken s' phase := by
  match phase, hgoing with
  | .current, _ => trivial
  | .previous _, hgoing => exact hgoing
  | .rehash _ _, hgoing => exact hgoing
  | .user _ _, hgoing => exact hgoing
  | .touch _, hgoing => exact hgoing
  | .ended (.served _), hgoing => exact hgoing
  | .ended (.refused _), ⟨hstatus, hrow, r, hr, hmoved⟩ =>
      obtain ⟨r', hr', -, hhmac⟩ := hmac_moves hs.reached hs.configs hs.issued h hr
      refine ⟨hstatus, hrow, r', hr', ?_⟩
      rcases hhmac with hhmac | hhmac
      · exact hhmac
      · exact hhmac.trans hmoved

theorem only_step {s s' : BearerState} {e : BearerEvent}
    (honly : ∀ answer ∈ s.issued, answer.2 = raw → answer.1.id = id)
    (huntroubled : Untroubled config id raw k s e) (h : Moves hmacToken s e s') :
    ∀ answer ∈ s'.issued, answer.2 = raw → answer.1.id = id := by
  have hsame : s'.issued = s.issued →
      ∀ answer ∈ s'.issued, answer.2 = raw → answer.1.id = id := by
    intro issued
    rw [issued]
    exact honly
  cases h with
  | still _ issued _ _ => exact hsame issued
  | created record raw' pepper _ _ _ _ issued _ _ creation =>
      obtain ⟨config', input, id', random, fuel, now, createdAt, token, rfl, htoken, -, rfl⟩ :=
        creation
      intro answer hanswer htext
      rw [issued, List.mem_append, List.mem_singleton] at hanswer
      rcases hanswer with hold | rfl
      · exact honly answer hold htext
      · exact absurd htext (huntroubled token htoken)
  | revoked _ _ _ _ _ issued _ _ _ _ => exact hsame issued
  | used _ _ _ _ _ _ _ _ _ issued _ _ => exact hsame issued
  | rehashed _ _ _ _ _ _ _ issued _ _ => exact hsame issued

theorem configs_step {s s' : BearerState} {e : BearerEvent}
    (hconfigs : ∀ q ∈ s.requests, q.Runs → q.config = config)
    (huntroubled : Untroubled config id raw k s e) (h : RequestMoves hmacToken s e s') :
    ∀ q ∈ s'.requests, q.Runs → q.config = config := by
  cases h with
  | still requests =>
      rw [requests]
      exact hconfigs
  | begun config' authorization scopes' event requests =>
      subst event
      intro q hq hruns
      rw [requests, List.mem_append, List.mem_singleton] at hq
      rcases hq with hold | rfl
      · exact hconfigs q hold hruns
      · exact (bearerRequest_config config' authorization scopes').trans (huntroubled hruns)
  | looked j old now phase _ found next requests =>
      intro q hq hruns
      rw [requests] at hq
      rcases List.mem_or_eq_of_mem_set hq with hold | rfl
      · exact hconfigs q hold hruns
      · exact hconfigs old (List.mem_of_getElem? found) (lookupPhase_running next)
  | advanced j old phase found next requests =>
      intro q hq hruns
      rw [requests] at hq
      rcases List.mem_or_eq_of_mem_set hq with hold | rfl
      · exact hconfigs q hold hruns
      · exact hconfigs old (List.mem_of_getElem? found) (advances_running next)

theorem request_step (happart : TellsApart hmacToken peppers texts)
    (hunder : row.tokenHmac = hmacToken config.pepper raw ∨
      ∃ previous, config.pepperPrevious = some previous ∧
        row.tokenHmac = hmacToken previous raw)
    (hscopes : ∀ scope ∈ scopes, scope ∈ row.scopes) {s s' : BearerState} {e : BearerEvent}
    (hs : Rotating config id raw scopes k row hmacToken peppers texts s)
    (huntroubled : Untroubled config id raw k s e) (h : RequestMoves hmacToken s e s') :
    ∃ q, s'.requests[k]? = some q ∧ q.config = config ∧ q.raw = raw ∧ q.scopes = scopes ∧
      Going config id raw scopes row hmacToken s q.phase := by
  obtain ⟨q, hq, hconfig, hraw, hqscopes, hgoing⟩ := hs.request
  cases h with
  | still requests => exact ⟨q, requests ▸ hq, hconfig, hraw, hqscopes, hgoing⟩
  | begun config' authorization scopes' _ requests =>
      refine ⟨q, ?_, hconfig, hraw, hqscopes, hgoing⟩
      rw [requests, List.getElem?_append_left (List.getElem?_eq_some_iff.1 hq).1]
      exact hq
  | looked j old now phase event found next requests =>
      by_cases hj : j = k
      · subst hj
        obtain rfl := Option.some.inj (found.symm.trans hq)
        subst event
        refine ⟨{ old with phase }, ?_, hconfig, hraw, hqscopes, ?_⟩
        · rw [requests, List.getElem?_set_self (List.getElem?_eq_some_iff.1 hq).1]
        · exact going_looked happart hunder hscopes hs (List.mem_of_getElem? hq) hconfig hraw
            hqscopes hgoing (huntroubled rfl) next
      · refine ⟨q, ?_, hconfig, hraw, hqscopes, hgoing⟩
        rw [requests, List.getElem?_set_ne hj]
        exact hq
  | advanced j old phase found next requests =>
      by_cases hj : j = k
      · subst hj
        obtain rfl := Option.some.inj (found.symm.trans hq)
        refine ⟨{ old with phase }, ?_, hconfig, hraw, hqscopes, ?_⟩
        · rw [requests, List.getElem?_set_self (List.getElem?_eq_some_iff.1 hq).1]
        · exact going_advances huntroubled hq hqscopes hgoing next
      · refine ⟨q, ?_, hconfig, hraw, hqscopes, hgoing⟩
        rw [requests, List.getElem?_set_ne hj]
        exact hq

theorem rotating_step (happart : TellsApart hmacToken peppers texts)
    (hunder : row.tokenHmac = hmacToken config.pepper raw ∨
      ∃ previous, config.pepperPrevious = some previous ∧
        row.tokenHmac = hmacToken previous raw)
    (hscopes : ∀ scope ∈ scopes, scope ∈ row.scopes) {s s' : BearerState} {e : BearerEvent}
    (hs : Rotating config id raw scopes k row hmacToken peppers texts s)
    (hwithin : Within peppers texts s e) (huntroubled : Untroubled config id raw k s e)
    (h : bearerStep hmacToken s e = some s') :
    Rotating config id raw scopes k row hmacToken peppers texts s' := by
  have hmoves := bearer_moves hs.reached.known h
  obtain ⟨r, hr, hfacts, hhmac⟩ := hs.kept
  obtain ⟨r', hr', hkeeps, hhmac'⟩ := hmac_moves hs.reached hs.configs hs.issued hmoves hr
  obtain ⟨q, hq, hconfig, hraw, hqscopes, hgoing⟩ :=
    request_step happart hunder hscopes hs huntroubled (request_moves h)
  refine ⟨reached_step happart hs.reached hwithin h,
    configs_step hs.configs huntroubled (request_moves h), hs.issued.moves hmoves,
    only_step hs.only huntroubled hmoves, ⟨r', hr', hfacts.trans hkeeps.facts, ?_⟩,
    ⟨q, hq, hconfig, hraw, hqscopes, hgoing.moves hs hmoves⟩⟩
  rcases hhmac' with hmoved | hsame
  · exact .inl hmoved
  · rw [hsame]
    exact hhmac

variable {m u : BearerState} {es fs : List BearerEvent}

/-- The request, as it begins. -/
theorem rotating_begins (happart : TellsApart hmacToken peppers texts)
    (hreached : Reached hmacToken peppers texts m)
    (hrow : m.tokens.find? id = some row) (hissued : IssuedWith m id raw)
    (honly : ∀ answer ∈ m.issued, answer.2 = raw → answer.1.id = id)
    (hconfigs : ∀ q ∈ m.requests, q.Runs → q.config = config)
    (hparse : (parseToken raw config.pre).isOk = true) {s : BearerState}
    (hwithin : Within peppers texts m (.request config (some (unitsOf "Bearer " ++ raw)) scopes))
    (hs : bearerStep hmacToken m (.request config (some (unitsOf "Bearer " ++ raw)) scopes) =
      some s) : Rotating config id raw scopes m.requests.length row hmacToken peppers texts s := by
  have hreached := reached_step happart hreached hwithin hs
  have hafter := hs
  rw [bearerStep, bearerRequest_bearer hparse] at hafter
  obtain rfl := Option.some.inj hafter
  refine ⟨hreached, fun q hq hruns => ?_, hissued, honly,
    ⟨row, hrow, SameFacts.refl row, .inr rfl⟩,
    ⟨_, List.getElem?_concat_length, rfl, rfl, rfl, trivial⟩⟩
  rcases List.mem_append.1 hq with hold | hnew
  · exact hconfigs q hold hruns
  · rw [List.mem_singleton.1 hnew]

/-- Once no request that is still going on has another configuration, nor does any
that begins later, a request with a good token is served as its bearer, unless
the row was under the previous pepper when the request began and is under the
new one when it is refused. Then no later request is refused. -/
theorem rotation_refuses_before_rehash (happart : TellsApart hmacToken peppers texts)
    (hwithin : Meets (bearerStep hmacToken) (Within peppers texts) emptyBearers
      (es ++ .request config (some (unitsOf "Bearer " ++ raw)) scopes :: fs))
    (h : exec (bearerStep hmacToken) emptyBearers es = some m)
    (hrow : m.tokens.find? id = some row) (hissued : IssuedWith m id raw)
    (honly : ∀ answer ∈ m.issued, answer.2 = raw → answer.1.id = id)
    (hconfigs : ∀ q ∈ m.requests, q.Runs → q.config = config)
    (hparse : (parseToken raw config.pre).isOk = true)
    (hunder : row.tokenHmac = hmacToken config.pepper raw ∨
      ∃ previous, config.pepperPrevious = some previous ∧
        row.tokenHmac = hmacToken previous raw)
    (hscopes : ∀ scope ∈ scopes, scope ∈ row.scopes)
    (h' : exec (bearerStep hmacToken) m
      (.request config (some (unitsOf "Bearer " ++ raw)) scopes :: fs) = some u)
    (hmeets : Meets (bearerStep hmacToken) (Untroubled config id raw m.requests.length) m
      (.request config (some (unitsOf "Bearer " ++ raw)) scopes :: fs))
    {q : BearerRequest} (hq : u.requests[m.requests.length]? = some q) {outcome : BearerOutcome}
    (hended : q.phase = .ended outcome) :
    (∃ record, outcome = .served record ∧ record.id = id) ∨
      outcome = .refused 401 ∧ row.tokenHmac ≠ hmacToken config.pepper raw ∧
        ∃ row', u.tokens.find? id = some row' ∧
          row'.tokenHmac = hmacToken config.pepper raw := by
  obtain ⟨s, hs, hrest⟩ := exec_cons_iff.1 h'
  have hreached := reached_run happart (meets_left hwithin) h
  have hafter := meets_append hwithin h
  have hbegins :=
    rotating_begins happart hreached hrow hissued honly hconfigs hparse hafter.1 hs
  have hinv : Rotating config id raw scopes m.requests.length row hmacToken peppers texts u :=
    runs_inv_meets (fun _ _ _ hi hC hs => rotating_step happart hunder hscopes hi hC.1 hC.2 hs)
      hbegins (meets_and (hafter.2 s hs) (hmeets.2 s hs)) hrest
  obtain ⟨q', hq', -, -, -, hgoing⟩ := hinv.request
  obtain rfl := Option.some.inj (hq'.symm.trans hq)
  rw [hended] at hgoing
  cases outcome with
  | served record => exact .inl ⟨record, rfl, hgoing⟩
  | refused status =>
      obtain ⟨rfl, hbefore, hmoved⟩ := hgoing
      exact .inr ⟨rfl, hbefore, hmoved⟩

end Rotation

/-! ## Two requests at once -/

def rotated : TokenConfig := shownConfig newPepper 2 (some oldPepper)

/-- The second of two requests rehashes the row between the lookups of the first. -/
def rehashedBetween : List BearerEvent :=
  [bear rotated firstToken, .lookup 1 2000, .lookup 1 2000, .lookup 0 2000, .rehash 1,
    .lookup 0 2000]

theorem first_parses : (parseToken firstToken rotated.pre).isOk = true := both_generated.1.2

/-- A test that is enough for `Untroubled`, where no token is created and nothing fails. -/
def keepsCalm (s : BearerState) : BearerEvent → Bool
  | .create _ _ _ _ _ _ _ => false
  | .request config _ _ => config = rotated
  | .lookup _ now => (s.tokens.find? "t1").all fun r =>
      r.revokedAt.isNone && r.expiresAt.all fun expires => decide ((now : Int) ≤ expires)
  | .findUser _ _ => false
  | .requestFails _ => false
  | _ => true

theorem untroubled_of_test (s : BearerState) (e : BearerEvent) (h : keepsCalm s e = true) :
    Untroubled rotated "t1" firstToken 0 s e := by
  cases e with
  | create => cases h
  | request config authorization scopes =>
      have hsame : config = rotated := of_decide_eq_true h
      exact fun _ => hsame
  | lookup j now =>
      intro _ r hr
      rw [keepsCalm, hr, Option.all_some] at h
      obtain ⟨hopen, hexpires⟩ := Bool.and_eq_true_iff.1 h
      refine ⟨Option.isNone_iff_eq_none.1 hopen, fun expires hsome => ?_⟩
      rw [hsome] at hexpires
      exact of_decide_eq_true hexpires
  | findUser => cases h
  | requestFails => cases h
  | _ => trivial

def firstIssued : BearerState := issuedAs emptyBearers "t1" firstGenerated

def firstRow : ApiTokenRecord :=
  newRecord shownHmac (shownConfig oldPepper 1 none) ⟨"ada", "ci", ["read:profile"], none, none⟩
    "t1" firstGenerated 1000 1000

theorem first_refused_once :
    ∃ u q, exec (bearerStep shownHmac) firstIssued (bear rotated firstToken :: rehashedBetween) =
        some u ∧ u.requests[0]? = some q ∧ q.phase = .ended (.refused 401) ∧
          ∃ row, u.tokens.find? "t1" = some row ∧
            row.tokenHmac = shownHmac newPepper firstToken := by
  have hissued : exec (bearerStep shownHmac) emptyBearers [issue "t1" 0] = some firstIssued := by
    rw [exec, step_issue both_generated.1.1]
    rfl
  have hwithin : Meets (bearerStep shownHmac) (Within shownPeppers shownTexts) emptyBearers
      ([issue "t1" 0] ++ bear rotated firstToken :: rehashedBetween) :=
    meets_of_mem (List.forall_mem_cons.2 ⟨within_issue both_generated.1.1 (.inl rfl) "t1",
      within_of_keepsWithin (by decide)⟩)
  have hbear := @step_bear rotated firstToken first_parses
  have hrun : (exec (bearerStep shownHmac) firstIssued
      (bear rotated firstToken :: rehashedBetween)).bind
        (fun u => u.requests[0]?.map BearerRequest.phase) = some (.ended (.refused 401)) := by
    simp only [rehashedBetween, exec, Option.bind_some, hbear]
    decide
  have hcalm : passes (bearerStep shownHmac) keepsCalm firstIssued
      (bear rotated firstToken :: rehashedBetween) = true := by
    simp only [rehashedBetween, passes, Option.all_some, hbear]
    decide
  obtain ⟨u, hu, hrest⟩ := Option.bind_eq_some_iff.1 hrun
  obtain ⟨q, hq, hphase⟩ := Option.map_eq_some_iff.1 hrest
  refine ⟨u, q, hu, hq, hphase, ?_⟩
  have hrow : firstIssued.tokens.find? "t1" = some firstRow := rfl
  have honly : ∀ answer ∈ firstIssued.issued, answer.2 = firstToken → answer.1.id = "t1" := by
    intro answer hanswer _
    rw [List.mem_singleton.1 hanswer]
    rfl
  have hscopes : ∀ scope ∈ ["read:profile"], scope ∈ firstRow.scopes := fun scope hscope => hscope
  have hended := rotation_refuses_before_rehash shown_apart hwithin hissued hrow
    ⟨(firstRow, firstToken), List.mem_cons_self, rfl, rfl⟩ honly
    (fun _ hmem _ => absurd hmem List.not_mem_nil) first_parses (.inr ⟨oldPepper, rfl, rfl⟩) hscopes
    hu (meets_of_passes untroubled_of_test hcalm) hq hphase
  obtain ⟨record, hserved, -⟩ | ⟨-, -, hmoved⟩ := hended
  · cases hserved
  · exact hmoved

end CleanStack.ApiToken
