import CleanStack.Drizzle.Columns
import CleanStack.Events.Catalogue
import CleanStack.Kit.IsoDate
import CleanStack.Kit.ParsedJson
import CleanStack.Lib.Table
import Mathlib.Data.List.Sort

/-!
# The audit log

`audit_log`, with what the `audit-log` event handler writes to it, what the
retention sweep takes out of it and what `verifyChain` makes of the rows it
finds. Tamper evidence is on: every row the handler writes carries the hash of
the hashed row before it and its own.

The text columns hold any text, as in the database, which checks none of the
enumerations. A payload is what `JSON.stringify` once wrote, so its numbers are
finite and it is stored and read back as it is; `metadata` is any value of its
`jsonb` column. SHA-256 is a parameter, from the text that is hashed to the
digest in hexadecimal.

The machine at the end interleaves the handlers and the sweep. The handlers
that wait for the chain lock have done nothing yet, so of all of them the state
keeps the one that holds it.
-/

namespace CleanStack.Audit

open CleanStack.Lib CleanStack.Kit CleanStack.Events

/-! ## Events and their actor -/

structure DeliveredEvent where
  eventId : String
  eventType : String
  aggregateType : String
  aggregateId : String
  organizationId : Option String
  requestId : Option String
  payload : Json
  dateOccurred : JsDate

def ACTOR_KEYS : List String := ["actorUserId", "inviterUserId", "ownerUserId", "userId"]

/-- A property of a value, when it has it. -/
def property (payload : JsValue) (key : String) : Option JsValue :=
  match payload with
  | .obj fields => fields.lookup key
  | _ => none

/-- First non-empty string found under `keys`, in order. -/
def readUserId (payload : JsValue) (keys : List String) : Option String :=
  keys.findSome? fun key =>
    match property payload key with
    | some (.str value) => if value = "" then none else some value
    | _ => none

/-- An explicit null `actorUserId` declares a system action. -/
def readActorId (payload : JsValue) : Option String :=
  match property payload "actorUserId" with
  | some .null => none
  | _ => readUserId payload ACTOR_KEYS

def extractActor (event : DeliveredEvent) : Option String × String :=
  match readActorId event.payload.value with
  | none => (none, "system")
  | some id => (some id, "user")

/-! ## Rows and hashes -/

def GENESIS_HASH : String := "GENESIS"

structure AuditHashInput where
  id : String
  action : String
  actorId : Option String
  actorType : String
  organizationId : Option String
  targetType : String
  targetId : String
  metadata : Parsed
  occurredAt : String
  requestId : Option String
  retention : String
  prevHash : String

def nullable : Option String → JsValue
  | none => .null
  | some s => .str s

def AuditHashInput.fields (input : AuditHashInput) : List (String × JsValue) :=
  [("id", .str input.id),
    ("action", .str input.action),
    ("actorId", nullable input.actorId),
    ("actorType", .str input.actorType),
    ("organizationId", nullable input.organizationId),
    ("targetType", .str input.targetType),
    ("targetId", .str input.targetId),
    ("metadata", input.metadata.value),
    ("occurredAt", .str input.occurredAt),
    ("requestId", nullable input.requestId),
    ("retention", .str input.retention),
    ("prevHash", .str input.prevHash)]

def computeAuditHash (sha256 : String → String) (input : AuditHashInput) : String :=
  sha256 (canonicalize (.obj input.fields))

structure AuditRow where
  id : String
  sequence : Nat
  actorId : Option String
  actorType : String
  organizationId : Option String
  action : String
  targetType : String
  targetId : String
  metadata : Parsed
  requestId : Option String
  retention : String
  prevHash : Option String
  hash : Option String
  occurredAt : Drizzle.Timestamp

instance : Keyed AuditRow String := ⟨AuditRow.id⟩

abbrev AuditLog := Table AuditRow

/-- The rows with a hash, oldest sequence first. -/
def hashedRows (log : AuditLog) : List AuditRow :=
  (log.rows.filter fun r => r.hash.isSome).insertionSort fun a b => a.sequence ≤ b.sequence

/-- The hash of the hashed row with the largest sequence, or the genesis value. -/
def lastHash (log : AuditLog) : String :=
  ((hashedRows log).getLast?.bind AuditRow.hash).getD GENESIS_HASH

/-! ## verifyChain -/

/-- What `verifyChain` hashes of a row. -/
def hashInputOf (r : AuditRow) : AuditHashInput where
  id := r.id
  action := r.action
  actorId := r.actorId
  actorType := r.actorType
  organizationId := r.organizationId
  targetType := r.targetType
  targetId := r.targetId
  metadata := r.metadata
  occurredAt := toISOString r.occurredAt.date
  requestId := r.requestId
  retention := r.retention
  prevHash := r.prevHash.getD GENESIS_HASH

structure ChainVerification where
  verified : Bool
  rowCount : Nat
  brokenAtId : Option String
  brokenAtSequence : Option Nat
  deriving DecidableEq, Repr

/-- The loop of `verifyChain`, from the hash the next row has to name. -/
def verifyFrom (sha256 : String → String) (rowCount : Nat) :
    String → List AuditRow → ChainVerification
  | _, [] => ⟨true, rowCount, none, none⟩
  | prev, r :: rows =>
      let recomputed := computeAuditHash sha256 (hashInputOf r)
      if r.prevHash ≠ some prev ∨ r.hash ≠ some recomputed then
        ⟨false, rowCount, some r.id, some r.sequence⟩
      else verifyFrom sha256 rowCount recomputed rows

def verifyChain (sha256 : String → String) (log : AuditLog) : ChainVerification :=
  let rows := hashedRows log
  verifyFrom sha256 rows.length GENESIS_HASH rows

/-! ## What a handler writes -/

/-- The values of the insert, for a handler that found `prevHash`. -/
def auditRow (sha256 : String → String) (event : DeliveredEvent) (prevHash : String)
    (sequence : Nat) : AuditRow :=
  let actor := extractActor event
  let id := "audit-" ++ event.eventId
  let retention := (retentionFor event.eventType).text
  { id
    sequence
    actorId := actor.1
    actorType := actor.2
    organizationId := event.organizationId
    action := event.eventType
    targetType := event.aggregateType
    targetId := event.aggregateId
    metadata := event.payload.read
    requestId := event.requestId
    retention
    prevHash := some prevHash
    hash := some (computeAuditHash sha256
      { id
        action := event.eventType
        actorId := actor.1
        actorType := actor.2
        organizationId := event.organizationId
        targetType := event.aggregateType
        targetId := event.aggregateId
        metadata := event.payload.read
        occurredAt := toISOString event.dateOccurred
        requestId := event.requestId
        retention
        prevHash })
    occurredAt := .ofDate event.dateOccurred }

/-- `INSERT … ON CONFLICT (id) DO NOTHING`. -/
def insertOrIgnore (log : AuditLog) (r : AuditRow) : AuditLog := (log.insert r).getD log

/-! ## The retention sweep -/

def BUCKETS : List RetentionPolicy := [.operational, .compliance]

/-- One batch of a retention pass: its bucket and configured days, when the
sweep started, and the rows other transactions have locked. -/
structure PurgeBatch where
  bucket : RetentionPolicy
  retentionDays : Nat
  startMs : Int
  batchSize : Nat
  locked : String → Bool

def PurgeBatch.cutoff (b : PurgeBatch) : Int :=
  b.startMs - b.retentionDays * (24 * 60 * 60 * 1000)

def eligible (b : PurgeBatch) (r : AuditRow) : Bool :=
  decide (r.retention = b.bucket.text) && decide (r.occurredAt.micros < b.cutoff * 1000)

def lockedBatch (log : AuditLog) (b : PurgeBatch) : List AuditRow :=
  ((log.rows.filter fun r => eligible b r && !b.locked r.id).insertionSort
    fun x y => x.occurredAt.micros ≤ y.occurredAt.micros).take b.batchSize

/-- Whether the batch deletes the row. -/
def purges (log : AuditLog) (b : PurgeBatch) (r : AuditRow) : Bool :=
  (lockedBatch log b).any fun x => x.id = r.id

def purgeBatch (log : AuditLog) (b : PurgeBatch) : AuditLog := log.delete (purges log b)

/-! ## Handlers and sweeps interleaved -/

/-- A handler that holds the chain lock, and the hash it read as the last one. -/
structure Append where
  event : DeliveredEvent
  prevHash : Option String

structure AuditState where
  log : AuditLog
  nextSequence : Nat
  holder : Option Append

def emptyLog : AuditState := ⟨Table.empty, 1, none⟩

inductive AuditEvent
  /-- A handler takes the chain lock for its event. -/
  | lock (event : DeliveredEvent)
  | readLast
  /-- Inserts and commits, which also releases the lock. -/
  | insert
  /-- The transaction fails; the insert may have drawn a sequence number. -/
  | fail (drawn : Bool)
  | sweep (batch : PurgeBatch)

def auditStep (sha256 : String → String) (s : AuditState) : AuditEvent → Option AuditState
  | .lock event =>
      if s.holder.isNone && decide (retentionFor event.eventType ≠ .none) then
        some { s with holder := some ⟨event, none⟩ }
      else none
  | .readLast =>
      match s.holder with
      | some ⟨event, none⟩ => some { s with holder := some ⟨event, some (lastHash s.log)⟩ }
      | _ => none
  | .insert =>
      match s.holder with
      | some ⟨event, some prevHash⟩ =>
          some
            { log := insertOrIgnore s.log (auditRow sha256 event prevHash s.nextSequence)
              nextSequence := s.nextSequence + 1
              holder := none }
      | _ => none
  | .fail drawn =>
      match s.holder with
      | none => none
      | some _ =>
          some
            { s with
              nextSequence := s.nextSequence + (if drawn then 1 else 0)
              holder := none }
  | .sweep batch =>
      if BUCKETS.contains batch.bucket && decide (0 < batch.retentionDays) then
        some { s with log := purgeBatch s.log batch }
      else none

/-! ## A small log -/

def localeChanged : DeliveredEvent where
  eventId := "e1"
  eventType := "user.locale.changed"
  aggregateType := "user"
  aggregateId := "u1"
  organizationId := none
  requestId := some "r1"
  payload := ⟨.obj [("userId", .str "u1"), ("locale", .str "fr")], by decide⟩
  dateOccurred := ⟨1767603600000, by decide⟩

def orgCreated : DeliveredEvent where
  eventId := "e2"
  eventType := "org.created"
  aggregateType := "organization"
  aggregateId := "o1"
  organizationId := some "o1"
  requestId := none
  payload := ⟨.obj [("actorUserId", .str "u1"), ("name", .str "Acme")], by decide⟩
  dateOccurred := ⟨1767603601000, by decide⟩

/-- What the handler hashes for `localeChanged` as the first row of the log. -/
def localeChangedText : String :=
  "\x7b\"action\":\"user.locale.changed\",\"actorId\":\"u1\",\"actorType\":\"user\"," ++
    "\"id\":\"audit-e1\",\"metadata\":\x7b\"locale\":\"fr\",\"userId\":\"u1\"\x7d," ++
    "\"occurredAt\":\"2026-01-05T09:00:00.000Z\",\"organizationId\":null," ++
    "\"prevHash\":\"GENESIS\",\"requestId\":\"r1\",\"retention\":\"operational\"," ++
    "\"targetId\":\"u1\",\"targetType\":\"user\"\x7d"

/-- What it hashes for `orgCreated` as the row after that one. -/
def orgCreatedText : String :=
  "\x7b\"action\":\"org.created\",\"actorId\":\"u1\",\"actorType\":\"user\"," ++
    "\"id\":\"audit-e2\",\"metadata\":\x7b\"actorUserId\":\"u1\",\"name\":\"Acme\"\x7d," ++
    "\"occurredAt\":\"2026-01-05T09:00:01.000Z\",\"organizationId\":\"o1\"," ++
    "\"prevHash\":\"c10977951dc07bac23770a60d6bb6af2e348630a7244eb7921c85fe2c024f58f\"," ++
    "\"requestId\":null,\"retention\":\"compliance\",\"targetId\":\"o1\"," ++
    "\"targetType\":\"organization\"\x7d"

/-- SHA-256 on the two texts above. The texts it has no digest for get one no
hexadecimal digest is. -/
def sampleSha256 (text : String) : String :=
  if text = localeChangedText then
    "c10977951dc07bac23770a60d6bb6af2e348630a7244eb7921c85fe2c024f58f"
  else if text = orgCreatedText then
    "741b7774e5f5183e1315e5e86e219002d96c6473aaaceca96172593b5d44ee67"
  else "#" ++ text

end CleanStack.Audit
