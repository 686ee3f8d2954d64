import CleanStack.ApiToken.Codec
import CleanStack.ApiToken.Tokens

/-!
# Bearers of a token

A row keeps the HMAC of its token under a server secret, the pepper, and never
the token. When the pepper is replaced the rows stay as they are: a bearer is
looked up under the new pepper first, then under the previous one, and a row
found that way is rehashed. The request goes on to check the user, and records
at most once in a while that the token was used.

Tokens go in three ways: the owner revokes one, a report says that one has
leaked, or a membership is lost. Each is one conditional statement in a
transaction that also writes `API_TOKEN_REVOKED`.

Every statement outside a transaction and every transaction is a step, and any
number of requests, reports and revocations interleave. Times are those of the
processes' own clocks, in milliseconds; the HMAC is a parameter.
-/

namespace CleanStack.ApiToken

open CleanStack.Lib CleanStack.Kit
open CleanStack.Admin (AppError)

/-- Milliseconds, as `Date.now()` reads them. -/
abbrev Millis := Int

structure ApiTokenRecord where
  id : String
  userId : String
  organizationId : Option String
  name : String
  scopes : List String
  tokenHmac : String
  pepperVersion : Nat
  tokenStart : JsString
  lastUsedAt : Option Millis
  expiresAt : Option Millis
  revokedAt : Option Millis
  revokedReason : Option ApiTokenRevokedReason
  createdAt : Millis
  deriving DecidableEq

instance : Keyed ApiTokenRecord String := ⟨fun r => r.id⟩

abbrev ApiTokenRecords := Table ApiTokenRecord

structure TokenConfig where
  pre : JsString
  pepper : String
  pepperVersion : Nat
  pepperPrevious : Option String
  bucketMin : Int
  maxExpiryDays : Nat
  deriving DecidableEq

/-! ## Owners -/

inductive TokenOwner
  | personal (userId : String)
  | orgAndPersonal (userId organizationId : String)
  deriving DecidableEq

def ownerReaches (owner : TokenOwner) (row : ApiTokenRecord) : Bool :=
  match owner with
  | .personal userId => row.userId = userId && row.organizationId.isNone
  | .orgAndPersonal userId organizationId =>
      row.userId = userId && row.organizationId.all fun o => o = organizationId

/-- The `WHERE` clause of the same rule. -/
def visibleTokensFilter (owner : TokenOwner) (row : ApiTokenRecord) : Bool :=
  match owner with
  | .personal userId => row.userId = userId && row.organizationId.isNone
  | .orgAndPersonal userId organizationId =>
      row.userId = userId &&
        (row.organizationId.isNone || row.organizationId = some organizationId)

/-! ## The repository -/

/-- What the unique index on the HMAC refuses. -/
def hmacTaken (t : ApiTokenRecords) (id hmac : String) : Bool :=
  t.rows.any fun r => r.tokenHmac = hmac && r.id ≠ id

def insertRecord (t : ApiTokenRecords) (row : ApiTokenRecord) : Option ApiTokenRecords :=
  if hmacTaken t row.id row.tokenHmac then none else t.insert row

def findByHmac (t : ApiTokenRecords) (hmac : String) : Option ApiTokenRecord :=
  t.rows.find? fun r => r.tokenHmac = hmac

def findByIdForOwner (t : ApiTokenRecords) (id : String) (owner : TokenOwner) :
    Option ApiTokenRecord :=
  (t.find? id).filter (visibleTokensFilter owner)

def revokedRecord (now : Millis) (reason : ApiTokenRevokedReason) (r : ApiTokenRecord) :
    ApiTokenRecord :=
  { r with revokedAt := some now, revokedReason := some reason }

theorem key_revokedRecord (now : Millis) (reason : ApiTokenRevokedReason) (r : ApiTokenRecord) :
    Keyed.key (revokedRecord now reason r) = Keyed.key r :=
  rfl

def isOpen (id : String) (r : ApiTokenRecord) : Bool := r.id = id && r.revokedAt.isNone

/-- The rows after the statement, and whether it has found one. -/
def revokeRecord (t : ApiTokenRecords) (now : Millis) (id : String)
    (reason : ApiTokenRevokedReason) : ApiTokenRecords × Bool :=
  (t.update (isOpen id) (revokedRecord now reason) (key_revokedRecord now reason),
    t.rows.any (isOpen id))

def isOfMembership (userId organizationId : String) (r : ApiTokenRecord) : Bool :=
  r.userId = userId && r.organizationId = some organizationId && r.revokedAt.isNone

/-- The rows after the statement, and those it returns the ids of. -/
def revokeMembership (t : ApiTokenRecords) (now : Millis) (userId organizationId : String) :
    ApiTokenRecords × List ApiTokenRecord :=
  (t.update (isOfMembership userId organizationId) (revokedRecord now .membershipLost)
      (key_revokedRecord now .membershipLost),
    t.rows.filter (isOfMembership userId organizationId))

def usedRecord (now : Millis) (r : ApiTokenRecord) : ApiTokenRecord :=
  { r with lastUsedAt := some now }

theorem key_usedRecord (now : Millis) (r : ApiTokenRecord) :
    Keyed.key (usedRecord now r) = Keyed.key r :=
  rfl

def isStale (id : String) (bucketFloor : Millis) (r : ApiTokenRecord) : Bool :=
  r.id = id && r.lastUsedAt.all fun last => last < bucketFloor

def touchLastUsed (t : ApiTokenRecords) (id : String) (bucketFloor now : Millis) :
    ApiTokenRecords × Bool :=
  (t.update (isStale id bucketFloor) (usedRecord now) (key_usedRecord now),
    t.rows.any (isStale id bucketFloor))

def rehashedRecord (hmac : String) (pepperVersion : Nat) (r : ApiTokenRecord) : ApiTokenRecord :=
  { r with tokenHmac := hmac, pepperVersion := pepperVersion }

theorem key_rehashedRecord (hmac : String) (pepperVersion : Nat) (r : ApiTokenRecord) :
    Keyed.key (rehashedRecord hmac pepperVersion r) = Keyed.key r :=
  rfl

/-- The unique index refuses the statement where another row has the HMAC. -/
def rehash (t : ApiTokenRecords) (id hmac : String) (pepperVersion : Nat) : ApiTokenRecords :=
  if hmacTaken t id hmac then t
  else t.update (fun r => r.id = id) (rehashedRecord hmac pepperVersion)
    (key_rehashedRecord hmac pepperVersion)

/-! ## Events -/

/-- `API_TOKEN_REVOKED`. -/
structure RevokedEvent where
  tokenId : String
  userId : String
  actorUserId : Option String
  organizationId : Option String
  reason : ApiTokenRevokedReason
  deriving DecidableEq

def revokedEventOf (record : ApiTokenRecord) (actorUserId : Option String)
    (reason : ApiTokenRevokedReason) : RevokedEvent :=
  ⟨record.id, record.userId, actorUserId, record.organizationId, reason⟩

/-- `API_TOKEN_USED`, with the time the same transaction has written. -/
structure UsedEvent where
  tokenId : String
  userId : String
  actorUserId : String
  organizationId : Option String
  scopes : List String
  usedAt : Millis
  deriving DecidableEq

def usedEventOf (record : ApiTokenRecord) (now : Millis) : UsedEvent :=
  ⟨record.id, record.userId, record.userId, record.organizationId, record.scopes, now⟩

/-! ## Requests with a bearer token -/

structure BearerUser where
  banned : Option Bool
  banExpires : Option Millis
  deletedAt : Option Millis
  deriving DecidableEq

def isBanned (user : BearerUser) (now : Millis) : Bool :=
  user.banned = some true && user.banExpires.all fun expires => now < expires

inductive BearerOutcome
  /-- An `HTTPException`, or 500 for what else is thrown. -/
  | refused (status : Nat)
  | served (record : ApiTokenRecord)
  deriving DecidableEq

/-- What a request awaits. -/
inductive BearerPhase
  | current
  | previous (pepper : String)
  | rehash (record : ApiTokenRecord) (now : Millis)
  | user (record : ApiTokenRecord) (now : Millis)
  | touch (record : ApiTokenRecord)
  | ended (outcome : BearerOutcome)
  deriving DecidableEq

structure BearerRequest where
  config : TokenConfig
  raw : JsString
  scopes : List String
  phase : BearerPhase
  deriving DecidableEq

/-- The prefix of the header, and the checks before any lookup. -/
def bearerRequest (config : TokenConfig) (authorization : Option JsString) (scopes : List String) :
    BearerRequest :=
  match authorization with
  | none => ⟨config, [], scopes, .ended (.refused 401)⟩
  | some header =>
      let raw := header.drop 7
      if (unitsOf "Bearer ").isPrefixOf header && (parseToken raw config.pre).isOk then
        ⟨config, raw, scopes, .current⟩
      else ⟨config, raw, scopes, .ended (.refused 401)⟩

/-- The check of the scopes, once the record is known to be good. -/
def checkScopes (scopes : List String) (record : ApiTokenRecord) (now : Millis) : BearerPhase :=
  if scopes.all fun scope => record.scopes.contains scope then .user record now
  else .ended (.refused 403)

/-- What follows a match. -/
def checkRecord (scopes : List String) (record : ApiTokenRecord) (needsRehash : Bool)
    (now : Millis) : BearerPhase :=
  if record.revokedAt.isSome then .ended (.refused 401)
  else if record.expiresAt.any fun expires => expires < now then .ended (.refused 401)
  else if needsRehash then .rehash record now
  else checkScopes scopes record now

def checkUser (record : ApiTokenRecord) (now : Millis) : Option BearerUser → BearerPhase
  | none => .ended (.refused 401)
  | some user =>
      if user.deletedAt.isSome || isBanned user now then .ended (.refused 401) else .touch record

/-! ## Reports of a leak -/

inductive LeakLabel
  | truePositive
  | falsePositive
  deriving DecidableEq

inductive LeakPhase
  | current
  | previous (pepper : String)
  | revoke (record : ApiTokenRecord)
  /-- `none` where a statement has failed. -/
  | ended (label : Option LeakLabel)
  deriving DecidableEq

/-- An entry of a report, and the judging of it. -/
structure LeakEntry where
  config : TokenConfig
  token : JsString
  phase : LeakPhase
  deriving DecidableEq

def leakEntry (config : TokenConfig) (token : JsString) : LeakEntry :=
  ⟨config, token, if (parseToken token config.pre).isOk then .current
    else .ended (some .falsePositive)⟩

/-- What follows a match: a token that was revoked already is not revoked again. -/
def judgeRecord (record : ApiTokenRecord) : LeakPhase :=
  if record.revokedAt.isSome then .ended (some .truePositive) else .revoke record

/-! ## Revocation by the owner -/

inductive RemovalOutcome
  | removed
  | notFound
  | failed
  deriving DecidableEq

inductive RemovalPhase
  | find
  | revoke (record : ApiTokenRecord)
  | ended (outcome : RemovalOutcome)
  deriving DecidableEq

structure Removal where
  id : String
  owner : TokenOwner
  actorUserId : String
  phase : RemovalPhase
  deriving DecidableEq

def removalFound (owner : TokenOwner) : Option ApiTokenRecord → RemovalPhase
  | none => .ended .notFound
  | some record =>
      if !ownerReaches owner record then .ended .notFound
      else if record.revokedAt.isSome then .ended .removed
      else .revoke record

/-! ## Everything side by side -/

structure CreateTokenInput where
  userId : String
  name : String
  scopes : List String
  organizationId : Option String
  expiresInDays : Option Nat

/-- `issued` are the answers of `create`: a record, and the text of the token. -/
structure BearerState where
  tokens : ApiTokenRecords
  issued : List (ApiTokenRecord × JsString)
  requests : List BearerRequest
  entries : List LeakEntry
  removals : List Removal
  revocations : List RevokedEvent
  usages : List UsedEvent

inductive BearerEvent
  | create (config : TokenConfig) (input : CreateTokenInput) (id : String)
      (random : Nat → UInt8) (fuel : Nat) (now createdAt : Millis)
  | request (config : TokenConfig) (authorization : Option JsString) (scopes : List String)
  /-- The next lookup of a request. -/
  | lookup (k : Nat) (now : Millis)
  | rehash (k : Nat)
  | findUser (k : Nat) (user : Option BearerUser)
  /-- The bucket's floor is read off the clock first, the time that is written after it. -/
  | touch (k : Nat) (floorAt now : Millis)
  /-- The statement a request awaits fails. -/
  | requestFails (k : Nat)
  | report (config : TokenConfig) (token : JsString)
  | entryLookup (j : Nat)
  | entryRevoke (j : Nat) (now : Millis)
  | entryFails (j : Nat)
  | remove (id : String) (owner : TokenOwner) (actorUserId : String)
  | removalFind (i : Nat)
  | removalRevoke (i : Nat) (now : Millis)
  | removalFails (i : Nat)
  /-- The handler of a lost membership. -/
  | membershipLost (userId organizationId actorUserId : String) (now : Millis)

variable (hmacToken : String → JsString → String)

/-- The row that `create` inserts. -/
def newRecord (config : TokenConfig) (input : CreateTokenInput) (id : String)
    (token : GeneratedToken) (now createdAt : Millis) : ApiTokenRecord where
  id := id
  userId := input.userId
  organizationId := input.organizationId
  name := input.name
  scopes := input.scopes
  tokenHmac := hmacToken config.pepper token.raw
  pepperVersion := config.pepperVersion
  tokenStart := token.start
  lastUsedAt := none
  expiresAt := input.expiresInDays.map fun (days : Nat) => now + days * 24 * 60 * 60 * 1000
  revokedAt := none
  revokedReason := none
  createdAt := createdAt

/-- The phase after a lookup under the current pepper. -/
def afterCurrent (q : BearerRequest) (now : Millis) : Option ApiTokenRecord → BearerPhase
  | some record => checkRecord q.scopes record false now
  | none =>
      match q.config.pepperPrevious with
      | some pepper => .previous pepper
      | none => .ended (.refused 401)

def afterPrevious (q : BearerRequest) (now : Millis) : Option ApiTokenRecord → BearerPhase
  | some record => checkRecord q.scopes record true now
  | none => .ended (.refused 401)

/-- A request that awaits a lookup, once it is answered. -/
def lookupPhase (t : ApiTokenRecords) (q : BearerRequest) (now : Millis) : Option BearerPhase :=
  match q.phase with
  | .current => some (afterCurrent q now (findByHmac t (hmacToken q.config.pepper q.raw)))
  | .previous pepper => some (afterPrevious q now (findByHmac t (hmacToken pepper q.raw)))
  | _ => none

/-- What a failed statement does to a request: a rehash is not looked at, and a
usage that cannot be recorded is logged. -/
def failedPhase (q : BearerRequest) : Option BearerPhase :=
  match q.phase with
  | .current => some (.ended (.refused 503))
  | .previous _ => some (.ended (.refused 503))
  | .rehash record now => some (checkScopes q.scopes record now)
  | .user _ _ => some (.ended (.refused 500))
  | .touch record => some (.ended (.served record))
  | .ended _ => none

def entryPhase (t : ApiTokenRecords) (entry : LeakEntry) : Option LeakPhase :=
  match entry.phase with
  | .current =>
      some (match findByHmac t (hmacToken entry.config.pepper entry.token),
          entry.config.pepperPrevious with
        | some record, _ => judgeRecord record
        | none, some pepper => .previous pepper
        | none, none => .ended (some .falsePositive))
  | .previous pepper =>
      some (match findByHmac t (hmacToken pepper entry.token) with
        | some record => judgeRecord record
        | none => .ended (some .falsePositive))
  | _ => none

def BearerState.setRequest (s : BearerState) (k : Nat) (q : BearerRequest) (phase : BearerPhase) :
    BearerState :=
  { s with requests := s.requests.set k { q with phase } }

def BearerState.setEntry (s : BearerState) (j : Nat) (entry : LeakEntry) (phase : LeakPhase) :
    BearerState :=
  { s with entries := s.entries.set j { entry with phase } }

def BearerState.setRemoval (s : BearerState) (i : Nat) (r : Removal) (phase : RemovalPhase) :
    BearerState :=
  { s with removals := s.removals.set i { r with phase } }

/-- The transaction around `revoke`: the event is written if a row was found. -/
def BearerState.revoke (s : BearerState) (now : Millis) (record : ApiTokenRecord)
    (actorUserId : Option String) (reason : ApiTokenRevokedReason) : BearerState :=
  let (tokens, revoked) := revokeRecord s.tokens now record.id reason
  { s with
    tokens
    revocations :=
      if revoked then s.revocations ++ [revokedEventOf record actorUserId reason]
      else s.revocations }

/-- The transaction that records a usage. -/
def BearerState.touch (s : BearerState) (record : ApiTokenRecord) (bucketFloor now : Millis) :
    BearerState :=
  let (tokens, touched) := touchLastUsed s.tokens record.id bucketFloor now
  { s with
    tokens
    usages := if touched then s.usages ++ [usedEventOf record now] else s.usages }

def bearerStep (s : BearerState) : BearerEvent → Option BearerState
  | .create config input id random fuel now createdAt =>
      if input.expiresInDays.any fun days => config.maxExpiryDays < days then some s
      else
        (generateToken random config.pre fuel).map fun token =>
          let record := newRecord hmacToken config input id token now createdAt
          match insertRecord s.tokens record with
          | none => s
          | some tokens => { s with tokens, issued := s.issued ++ [(record, token.raw)] }
  | .request config authorization scopes =>
      some { s with requests := s.requests ++ [bearerRequest config authorization scopes] }
  | .lookup k now =>
      s.requests[k]?.bind fun q => (lookupPhase hmacToken s.tokens q now).map (s.setRequest k q)
  | .rehash k =>
      s.requests[k]?.bind fun q =>
        match q.phase with
        | .rehash record now =>
            let tokens := rehash s.tokens record.id (hmacToken q.config.pepper q.raw)
              q.config.pepperVersion
            some ({ s with tokens }.setRequest k q (checkScopes q.scopes record now))
        | _ => none
  | .findUser k user =>
      s.requests[k]?.bind fun q =>
        match q.phase with
        | .user record now => some (s.setRequest k q (checkUser record now user))
        | _ => none
  | .touch k floorAt now =>
      s.requests[k]?.bind fun q =>
        match q.phase with
        | .touch record =>
            let bucketFloor := floorAt - q.config.bucketMin * 60000
            some ((s.touch record bucketFloor now).setRequest k q (.ended (.served record)))
        | _ => none
  | .requestFails k =>
      s.requests[k]?.bind fun q => (failedPhase q).map (s.setRequest k q)
  | .report config token => some { s with entries := s.entries ++ [leakEntry config token] }
  | .entryLookup j =>
      s.entries[j]?.bind fun entry => (entryPhase hmacToken s.tokens entry).map (s.setEntry j entry)
  | .entryRevoke j now =>
      s.entries[j]?.bind fun entry =>
        match entry.phase with
        | .revoke record =>
            some ((s.revoke now record none .leaked).setEntry j entry (.ended (some .truePositive)))
        | _ => none
  | .entryFails j =>
      s.entries[j]?.bind fun entry =>
        match entry.phase with
        | .ended _ => none
        | _ => some (s.setEntry j entry (.ended none))
  | .remove id owner actorUserId =>
      some { s with removals := s.removals ++ [⟨id, owner, actorUserId, .find⟩] }
  | .removalFind i =>
      s.removals[i]?.bind fun r =>
        match r.phase with
        | .find =>
            some (s.setRemoval i r (removalFound r.owner (findByIdForOwner s.tokens r.id r.owner)))
        | _ => none
  | .removalRevoke i now =>
      s.removals[i]?.bind fun r =>
        match r.phase with
        | .revoke record =>
            some ((s.revoke now record (some r.actorUserId) .user).setRemoval i r (.ended .removed))
        | _ => none
  | .removalFails i =>
      s.removals[i]?.bind fun r =>
        match r.phase with
        | .ended _ => none
        | _ => some (s.setRemoval i r (.ended .failed))
  | .membershipLost userId organizationId actorUserId now =>
      let (tokens, revoked) := revokeMembership s.tokens now userId organizationId
      some { s with
        tokens
        revocations := s.revocations ++
          revoked.map fun r => revokedEventOf r (some actorUserId) .membershipLost }

/-- Nobody has asked for anything yet. -/
def emptyBearers : BearerState := ⟨Table.empty, [], [], [], [], [], []⟩

/-- A request with a bearer token, as it begins. -/
theorem bearerRequest_bearer {config : TokenConfig} {raw : JsString}
    (hparse : (parseToken raw config.pre).isOk = true) (scopes : List String) :
    bearerRequest config (some (unitsOf "Bearer " ++ raw)) scopes =
      ⟨config, raw, scopes, .current⟩ := by
  have hdrop : (unitsOf "Bearer " ++ raw).drop 7 = raw :=
    List.drop_left' (show (unitsOf "Bearer ").length = 7 by decide)
  have hstarts : (unitsOf "Bearer ").isPrefixOf (unitsOf "Bearer " ++ raw) = true := by
    rw [List.isPrefixOf_iff_prefix]
    exact List.prefix_append _ _
  simp only [bearerRequest, hdrop, hstarts, hparse, Bool.and_self, if_true]

/-! ## Two tokens and two peppers -/

def oldPepper : String := "0f1e2d3c4b5a69788796a5b4c3d2e1f0"

def newPepper : String := "f0e1d2c3b4a5968778695a4b3c2d1e0f"

def firstToken : JsString := unitsOf "cs_111111111111111111111111111111111111111111115geGLm"

def secondToken : JsString := unitsOf "cs_222222222222222222222222222222222222222222223VCor2"

/-- HMAC-SHA-256 of these tokens under these peppers. -/
def shownHmac (pepper : String) (raw : JsString) : String :=
  if raw = firstToken then
    if pepper = oldPepper then "A2RLZBkx0uzvBMeiMT4BV9CwWH8HpIQ7SbCDmKt4beU"
    else if pepper = newPepper then "ijej3ODcRP0HymtPuSgH9KMlUdc4scrQbAqbfT8p4d4" else ""
  else if raw = secondToken then
    if pepper = oldPepper then "eCNacN60mMDPkrx4TA8603yWCsX4tkVZJ-gD13GY4S4"
    else if pepper = newPepper then "mf9oMbnKF7aElp1N6eJ1fsIoX96NjKSmStybtTas_pQ" else ""
  else ""

def shownConfig (pepper : String) (version : Nat) (previous : Option String) : TokenConfig :=
  ⟨unitsOf "cs_", pepper, version, previous, 5, 365⟩

def issue (id : String) (digit : UInt8) : BearerEvent :=
  .create (shownConfig oldPepper 1 none) ⟨"ada", "ci", ["read:profile"], none, none⟩ id
    (fun _ => digit) 1 1000 1000

def bear (config : TokenConfig) (token : JsString) : BearerEvent :=
  .request config (some (unitsOf "Bearer " ++ token)) ["read:profile"]

deriving instance DecidableEq for GeneratedToken

def firstGenerated : GeneratedToken :=
  ⟨firstToken, List.replicate 44 49, unitsOf "cs_11111111"⟩

def secondGenerated : GeneratedToken :=
  ⟨secondToken, List.replicate 44 50, unitsOf "cs_22222222"⟩

theorem both_generated :
    (generateToken (fun _ => 0) (unitsOf "cs_") 1 = some firstGenerated ∧
        (parseToken firstToken (unitsOf "cs_")).isOk = true) ∧
      generateToken (fun _ => 1) (unitsOf "cs_") 1 = some secondGenerated ∧
        (parseToken secondToken (unitsOf "cs_")).isOk = true := by
  decide +kernel

/-- What the issue of a token leaves. -/
def issuedAs (s : BearerState) (id : String) (token : GeneratedToken) : BearerState :=
  let record := newRecord shownHmac (shownConfig oldPepper 1 none)
    ⟨"ada", "ci", ["read:profile"], none, none⟩ id token 1000 1000
  match insertRecord s.tokens record with
  | none => s
  | some tokens => { s with tokens, issued := s.issued ++ [(record, token.raw)] }

theorem step_issue {digit : UInt8} {token : GeneratedToken}
    (h : generateToken (fun _ => digit) (unitsOf "cs_") 1 = some token) (s : BearerState)
    (id : String) : bearerStep shownHmac s (issue id digit) = some (issuedAs s id token) := by
  have hgenerated : generateToken (fun _ => digit) (shownConfig oldPepper 1 none).pre 1 =
      some token := h
  rw [issue, bearerStep, Option.any_none, if_neg Bool.false_ne_true, hgenerated, Option.map_some]
  rfl

theorem step_bear {config : TokenConfig} {token : JsString}
    (h : (parseToken token config.pre).isOk = true) (s : BearerState) :
    bearerStep shownHmac s (bear config token) =
      some { s with requests := s.requests ++ [⟨config, token, ["read:profile"], .current⟩] } := by
  rw [bear, bearerStep, bearerRequest_bearer h]

theorem step_report {config : TokenConfig} {token : JsString}
    (h : (parseToken token config.pre).isOk = true) (s : BearerState) :
    bearerStep shownHmac s (.report config token) =
      some { s with entries := s.entries ++ [⟨config, token, .current⟩] } := by
  rw [bearerStep, leakEntry, if_pos h]

end CleanStack.ApiToken
