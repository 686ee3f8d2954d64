import CleanStack.Email.Queue
import CleanStack.Lib.Grouping
import CleanStack.Lib.Runs
import CleanStack.Outbox.Jitter
import CleanStack.Outbox.LeaseBudget

/-!
# The e-mail delivery worker

A drain claims rows, groups them, and hands the groups to the provider in
chunks. Each of its awaited calls is one step of the system, taken when the
environment lets it: between two of them other drains run, leases run out, and
a drain whose worker has died is never heard of again. A chunk's answer is
settled row by row, each row in a statement of its own.

What a drain still has to do is a list of calls. The answers of the provider
are the environment's, and so is what the provider did with a request,
whichever answer it gave.
-/

namespace CleanStack.Email

open CleanStack.Lib CleanStack.Drizzle CleanStack.Kit CleanStack.Outbox

def EMAIL_SEND_TIMEOUT_SECONDS : Nat := 30
def EMAIL_SETTLE_MARGIN_SECONDS : Nat := 15
def EMAIL_BATCH_CHUNK_SIZE : Nat := 100
def EMAIL_MAX_ATTEMPTS : Int := 4
def STILL_PROCESSING_RETRY_SECONDS : Nat := 60

def TEMPLATE_IDS : List (String × String) :=
  [("verify_email", ""), ("reset_password", ""), ("magic_link", ""),
    ("org_invitation", ""), ("data_export_ready", ""), ("delete_requested", ""),
    ("delete_cancelled", ""), ("delete_completed", ""), ("change_email", ""),
    ("backup_code_used", ""), ("notification_digest", "")]

structure RenderedEmail where
  html : String
  text : String

/-- What every worker is given: the digest of the platform, the templates, and
the `from` of the options. Rendering is a function, so it is deterministic. -/
structure Mailer where
  sha256Hex : String → String
  renderTemplate : Option String → JsValue → Locale → Except String RenderedEmail
  fromAddress : Option String

structure EmailDeliveryOptions where
  leaseSeconds : Nat
  deadRetrySeconds : Nat
  deadReplayWindowHours : Nat

abbrev BatchEntry := JsValue

inductive BatchErrorKind
  | retryable
  | in_flight
  | conflict
  | rejected
  deriving DecidableEq, Repr

structure BatchError where
  kind : BatchErrorKind
  statusCode : Nat
  message : String

inductive BatchResult
  | error (error : BatchError)
  | answered (data : Option (List String)) (errors : List (Nat × String))

/-! ## Rendering -/

/-- `body.name`, which only `null` and `undefined` refuse. -/
def property (name : String) : JsValue → Except String JsValue
  | .undefined => .error ("undefined is not an object (evaluating 'body." ++ name ++ "')")
  | .null => .error ("null is not an object (evaluating 'body." ++ name ++ "')")
  | .obj fields => .ok ((fields.lookup name).getD .undefined)
  | _ => .ok .undefined

def orEmpty : JsValue → JsValue
  | .undefined => .str ""
  | .null => .str ""
  | v => v

def baseEntry (m : Mailer) (r : EmailRow) : List (String × JsValue) :=
  [("from", (m.fromAddress.map JsValue.str).getD .undefined),
    ("to", .str r.toAddress), ("subject", .str r.subject)]

def toEntry (m : Mailer) (r : EmailRow) : Except String BatchEntry :=
  match r.kind with
  | .raw => do
      let html ← property "html" r.payload
      let text ← property "text" r.payload
      .ok (.obj (baseEntry m r ++ [("html", orEmpty html), ("text", text)]))
  | .template =>
      let templateId := (r.template.bind fun name => TEMPLATE_IDS.lookup name).getD ""
      if templateId ≠ "" then
        .ok (.obj (baseEntry m r ++
          [("template", .obj [("id", .str templateId), ("variables", r.payload)])]))
      else do
        let rendered ← m.renderTemplate r.template r.payload
          ((r.locale.bind toLocale?).getD DEFAULT_LOCALE)
        .ok (.obj (baseEntry m r ++
          [("html", .str rendered.html), ("text", .str rendered.text)]))

/-! ## Groups and chunks -/

def MessageKind.text : MessageKind → String
  | .template => "template"
  | .raw => "raw"

def lane (r : EmailRow) : String := if r.status = .dead then "dead" else "live"

def groupKey (r : EmailMessageRecord) : String :=
  match r.batchKey with
  | some batchKey => "batch:" ++ batchKey
  | none =>
      r.kind.text ++ (":" ++ r.template.getD "" ++ ":" ++ lane r.toEmailRow ++ ":" ++
        toString r.attempts)

def groupRows (rows : List EmailMessageRecord) : List (List EmailMessageRecord) :=
  (groupsOf groupKey rows).map Prod.snd

def isWholeBatch (group : List EmailMessageRecord) : Bool :=
  group.all fun r => r.unsettledInBatch.getD 0 ≤ group.length

def chunksOf (group : List EmailMessageRecord) : List (List EmailMessageRecord) :=
  (List.range ((group.length + (EMAIL_BATCH_CHUNK_SIZE - 1)) / EMAIL_BATCH_CHUNK_SIZE)).map
    fun i => (group.drop (i * EMAIL_BATCH_CHUNK_SIZE)).take EMAIL_BATCH_CHUNK_SIZE

def chunkBatchKey (m : Mailer) (chunk : List EmailMessageRecord) : String :=
  m.sha256Hex (joinWith "|"
    ((chunk.map fun r => r.id).insertionSort fun a b => stringLe a b = true))

def chunkIdempotencyKey (m : Mailer) (batchKey : String) (entries : List BatchEntry) : String :=
  m.sha256Hex (batchKey ++ "|" ++ canonicalize (.arr entries))

/-- The key a chunk is sent under: the one its first row carries, else its own. -/
def batchKeyOf (m : Mailer) (chunk : List EmailMessageRecord) : String :=
  ((chunk.head?).bind fun r => r.batchKey).getD (chunkBatchKey m chunk)

/-! ## The calls of a drain -/

inductive Call
  | release (rows : List EmailMessageRecord) (delaySeconds : Nat)
  | settleFailures (rows : List EmailMessageRecord) (failure : EmailFailure)
  | assignBatch (chunk : List EmailMessageRecord) (entries : List BatchEntry)
      (batchKey : String)
  | batchSend (chunk : List EmailMessageRecord) (entries : List BatchEntry)
      (batchKey : String)
  | markSent (rows : List EmailMessageRecord) (providerIds : List (String × String))

def leases (rows : List EmailMessageRecord) : List LeaseKey :=
  rows.map fun r => ⟨r.id, r.attempts⟩

structure EmailDeliveryExhausted where
  messageId : String
  template : Option String
  toHash : String
  attempts : Int
  lastError : String
  actorUserId : Option String
  deriving DecidableEq, Repr

def announceExhausted (m : Mailer) (row : EmailMessageRecord) (lastError : String) :
    EmailDeliveryExhausted :=
  ⟨row.id, row.template, m.sha256Hex row.toAddress, row.attempts, lastError, none⟩

def EmailFailure.lastError : EmailFailure → String
  | .failed lastError => lastError
  | .pending lastError _ => lastError
  | .dead lastError _ => lastError

/-- One transaction: the failure, and an event for each row it was written on
that gives up for the first time. -/
def settleFailures (m : Mailer) (t : EmailTable) (now : Time)
    (rows : List EmailMessageRecord) (failure : EmailFailure) :
    EmailTable × List EmailDeliveryExhausted :=
  let (table, written) := markFailed t now (leases rows) failure
  match failure with
  | .pending .. => (table, [])
  | _ =>
      (table, (rows.filter fun row =>
          written.any (fun lease => lease.id = row.id) && row.status ≠ .dead).map fun row =>
        announceExhausted m row failure.lastError)

/-- What the statement of a call does to the table, and the events it appends. -/
def runStatement (m : Mailer) (t : EmailTable) (now : Time) :
    Call → EmailTable × List EmailDeliveryExhausted
  | .release rows delaySeconds => ((release t now (leases rows) delaySeconds).1, [])
  | .settleFailures rows failure => settleFailures m t now rows failure
  | .assignBatch chunk _ batchKey => ((assignBatch t (leases chunk) batchKey).1, [])
  | .batchSend .. => (t, [])
  | .markSent rows providerIds => ((markSent t now (leases rows) providerIds).1, [])

/-- How a statement ends: committed, committed with an error reported (the
connection broke), or not committed. -/
inductive Outcome
  | written
  | unreported
  | refused
  deriving DecidableEq, Repr

/-- Every row of the chunk took the key. -/
def assigned (t : EmailTable) (chunk : List EmailMessageRecord) (batchKey : String)
    (outcome : Outcome) : Bool :=
  outcome = .written &&
    chunk.length ≤ (assignBatch t (leases chunk) batchKey).2.length

/-- What the worker does once the call has returned. -/
def nextCalls (t : EmailTable) (outcome : Outcome) : Call → List Call
  | .assignBatch chunk entries batchKey =>
      if assigned t chunk batchKey outcome then [.batchSend chunk entries batchKey]
      else [.release chunk 0]
  | _ => []

/-! ## sendChunk -/

def rendered (m : Mailer) (claimed : List EmailMessageRecord) :
    List (EmailMessageRecord × BatchEntry) :=
  claimed.filterMap fun r =>
    (toEntry m r.toEmailRow).toOption.map fun entry => (r, entry)

def renderFailures (m : Mailer) (claimed : List EmailMessageRecord) : List Call :=
  claimed.filterMap fun r =>
    match toEntry m r.toEmailRow with
    | .error message => some (.settleFailures [r] (.failed ("render failed: " ++ message)))
    | .ok _ => none

def sendChunk (m : Mailer) (claimed : List EmailMessageRecord) : List Call :=
  let chunk := (rendered m claimed).map Prod.fst
  let entries := (rendered m claimed).map Prod.snd
  renderFailures m claimed ++
    if chunk = [] then [] else [.assignBatch chunk entries (batchKeyOf m chunk)]

/-! ## Settling an answer -/

def conflictError (lastError : String) : String :=
  lastError ++ " (the provider already holds a different payload under this chunk's " ++
    "idempotency key; not resent to avoid a duplicate)"

def failureOfChunk (options : EmailDeliveryOptions) (random : Draw)
    (chunk : List EmailMessageRecord) (lastError : String) : EmailFailure :=
  let schedule := failureSchedule ((chunk.map fun r => r.attempts).max?.getD 0)
    { wasDead := chunk.any fun r => r.status = .dead
      maxAttempts := EMAIL_MAX_ATTEMPTS
      deadRetrySeconds := options.deadRetrySeconds } random
  if schedule.dead then .dead lastError schedule.retryAfterSeconds
  else .pending lastError schedule.retryAfterSeconds

def settleRejected (options : EmailDeliveryOptions) (random : Draw)
    (chunk : List EmailMessageRecord) (error : BatchError) : Call :=
  let lastError := "HTTP " ++ toString error.statusCode ++ ": " ++ error.message
  match error.kind with
  | .in_flight => .release chunk STILL_PROCESSING_RETRY_SECONDS
  | .retryable => .settleFailures chunk (failureOfChunk options random chunk lastError)
  | .conflict => .settleFailures chunk (.failed (conflictError lastError))
  | .rejected => .settleFailures chunk (.failed lastError)

/-- `new Map(errors)`: the last error of an index wins. -/
def failureAt (errors : List (Nat × String)) (index : Nat) : Option String :=
  errors.reverse.lookup index

def failedCalls (chunk : List EmailMessageRecord) (errors : List (Nat × String)) :
    List Call :=
  chunk.zipIdx.filterMap fun (r, index) =>
    (failureAt errors index).map fun message => .settleFailures [r] (.failed message)

def sentRows (chunk : List EmailMessageRecord) (errors : List (Nat × String)) :
    List (EmailMessageRecord × Nat) :=
  chunk.zipIdx.filter fun (_, index) => (failureAt errors index).isNone

def providerIds (chunk : List EmailMessageRecord) (data : Option (List String))
    (errors : List (Nat × String)) : List (String × String) :=
  match data with
  | none => []
  | some ids =>
      if ids.length = chunk.length then
        (sentRows chunk errors).filterMap fun (r, index) =>
          (ids[index]?).bind fun id => if id = "" then none else some (r.id, id)
      else []

def settleAnswer (options : EmailDeliveryOptions) (random : Draw)
    (chunk : List EmailMessageRecord) : BatchResult → List Call
  | .error error => [settleRejected options random chunk error]
  | .answered data errors =>
      let sent := (sentRows chunk errors).map Prod.fst
      failedCalls chunk errors ++
        if sent = [] then [] else [.markSent sent (providerIds chunk data errors)]

/-! ## The system -/

structure Drain where
  options : EmailDeliveryOptions
  calls : List Call
  chunks : List (List EmailMessageRecord)

/-- A request to the provider. Of its rows, `unanswered` are those that no
answer has been recorded on, and `accepted` those the provider will deliver if
it has not seen the key. -/
structure ProviderSend where
  idempotencyKey : String
  entries : List BatchEntry
  ids : List String
  unanswered : List String
  accepted : List String

structure MailState where
  clock : Time
  table : EmailTable
  drains : List Drain
  sends : List ProviderSend
  announced : List EmailDeliveryExhausted

inductive MailEvent
  | enqueue (r : EmailRow)
  | wait (n : Nat)
  | claim (locked : String → Bool) (limit : Nat) (options : EmailDeliveryOptions)
  | nextChunk (i : Nat) (stopping : Bool)
  | call (i : Nat) (outcome : Outcome)
  | send (i : Nat) (result : BatchResult) (accepts : String → Bool) (random : Draw)

/-- The columns `enqueue` fills in itself. -/
def newlyQueued (r : EmailRow) : Bool :=
  r.status = .pending && r.attempts = 0 && r.nextAttemptAt.isNone && r.batchKey.isNone

/-- What `drainOnce` plans for the rows a claim returned: the batches that came
incomplete are released, the others are cut into chunks. -/
def drainOf (options : EmailDeliveryOptions) (rows : List EmailMessageRecord) : Drain :=
  let incomplete := (groupRows rows).filter fun group => !isWholeBatch group
  { options := options
    calls := if incomplete = [] then [] else [.release incomplete.flatten 0]
    chunks := ((groupRows rows).filter isWholeBatch).flatMap chunksOf }

def isUnsettled (t : EmailTable) (id : String) : Bool := (t.find? id).any unsettled

def sendOf (m : Mailer) (t : EmailTable) (chunk : List EmailMessageRecord)
    (entries : List BatchEntry) (batchKey : String) (accepts : String → Bool) :
    ProviderSend :=
  let ids := chunk.map fun r => r.id
  { idempotencyKey := chunkIdempotencyKey m batchKey entries
    entries := entries
    ids := ids
    unanswered := ids.filter (isUnsettled t)
    accepted := ids.filter accepts }

def MailState.setDrain (s : MailState) (i : Nat) (d : Drain) : MailState :=
  { s with drains := s.drains.set i d }

/-- The next chunk of a drain with nothing left to do for the last one.
`stopping` stands for the shutdown, and for a lease that does not cover another
chunk. -/
def nextChunk (m : Mailer) (d : Drain) (stopping : Bool) : Option Drain :=
  match d.calls, d.chunks with
  | [], chunk :: rest =>
      if stopping then
        some { d with calls := [.release (chunk :: rest).flatten 0], chunks := [] }
      else some { d with calls := sendChunk m chunk, chunks := rest }
  | _, _ => none

/-- The next call of the `i`-th drain is a statement. -/
def runCall (m : Mailer) (s : MailState) (i : Nat) (d : Drain) (outcome : Outcome) :
    Option MailState :=
  match d.calls with
  | [] => none
  | .batchSend .. :: _ => none
  | c :: rest =>
      let d' := { d with calls := nextCalls s.table outcome c ++ rest }
      if outcome = .refused then some (s.setDrain i d')
      else
        let (table, events) := runStatement m s.table s.clock c
        some { s.setDrain i d' with
          table := table
          announced := s.announced ++ events }

/-- The next call of the `i`-th drain is a request to the provider. -/
def runSend (m : Mailer) (s : MailState) (i : Nat) (d : Drain) (result : BatchResult)
    (accepts : String → Bool) (random : Draw) : Option MailState :=
  match d.calls with
  | .batchSend chunk entries batchKey :: rest =>
      some { s.setDrain i
          { d with calls := settleAnswer d.options random chunk result ++ rest } with
        sends := s.sends ++ [sendOf m s.table chunk entries batchKey accepts] }
  | _ => none

def mailStep (m : Mailer) (s : MailState) : MailEvent → Option MailState
  | .enqueue r =>
      if newlyQueued r then (s.table.insert r).map fun table => { s with table := table }
      else none
  | .wait n => some { s with clock := s.clock + n }
  | .claim locked limit options =>
      let (table, rows) := claim s.table s.clock locked
        ⟨limit, options.leaseSeconds, options.deadReplayWindowHours⟩
      some { s with table := table, drains := s.drains ++ [drainOf options rows] }
  | .nextChunk i stopping =>
      (s.drains[i]?).bind fun d => (nextChunk m d stopping).map (s.setDrain i)
  | .call i outcome => (s.drains[i]?).bind fun d => runCall m s i d outcome
  | .send i result accepts random =>
      (s.drains[i]?).bind fun d => runSend m s i d result accepts random

/-! ## A drain in time -/

def CHUNK_BUDGET : LeaseBudget where
  unitSeconds := EMAIL_SEND_TIMEOUT_SECONDS
  marginSeconds := EMAIL_SETTLE_MARGIN_SECONDS

/-- `drainOnce` on the rows of a claim that is answered some seconds after the
countdown began, with the time that the release of incomplete batches takes. -/
def drainOnce (options : EmailDeliveryOptions) (clock : Rat) (rows : List EmailMessageRecord)
    (answered releaseIncomplete : Rat) (runs : List UnitRun) :
    Drained (List EmailMessageRecord) :=
  let lease := leaseCountdown options.leaseSeconds CHUNK_BUDGET clock
  let drain := drainOf options rows
  let now := if drain.calls.isEmpty then answered else answered + releaseIncomplete
  drainUnits false lease clock true now (drain.chunks.zip runs)

/-! ## What a step does -/

/-- A row that a statement reaches is leased by one of its records. -/
theorem exists_of_leasedAll {rows : List EmailMessageRecord} {r : EmailRow}
    (h : leasedAll (leases rows) r = true) :
    unsettled r = true ∧ ∃ c ∈ rows, c.id = r.id ∧ c.attempts = r.attempts := by
  obtain ⟨hany, hopen⟩ := Bool.and_eq_true_iff.1 h
  obtain ⟨lease, hlease, hby⟩ := List.any_eq_true.1 hany
  obtain ⟨c, hc, rfl⟩ := List.mem_map.1 hlease
  obtain ⟨hid, hattempts⟩ := Bool.and_eq_true_iff.1 hby
  exact ⟨hopen, c, hc, (of_decide_eq_true hid).symm, (of_decide_eq_true hattempts).symm⟩

/-- The table after a statement that ended with the outcome. -/
def tableAfter (m : Mailer) (s : MailState) (outcome : Outcome) (c : Call) : EmailTable :=
  if outcome = .refused then s.table else (runStatement m s.table s.clock c).1

def eventsOf (m : Mailer) (s : MailState) (outcome : Outcome) (c : Call) :
    List EmailDeliveryExhausted :=
  if outcome = .refused then [] else (runStatement m s.table s.clock c).2

theorem runCall_eq_some {m : Mailer} {s s' : MailState} {i : Nat} {d : Drain}
    {outcome : Outcome} (h : runCall m s i d outcome = some s') :
    ∃ c rest, d.calls = c :: rest ∧
      s' = { s.setDrain i { d with calls := nextCalls s.table outcome c ++ rest } with
        table := tableAfter m s outcome c
        announced := s.announced ++ eventsOf m s outcome c } := by
  unfold runCall at h
  split at h
  · cases h
  · cases h
  · next c rest _ hcalls =>
      refine ⟨c, rest, hcalls, ?_⟩
      dsimp only at h
      split at h
      · next hrefused =>
          cases h
          simp [tableAfter, eventsOf, hrefused, MailState.setDrain]
      · next hcommitted =>
          cases h
          rw [tableAfter, eventsOf, if_neg hcommitted, if_neg hcommitted]

theorem runSend_eq_some {m : Mailer} {s s' : MailState} {i : Nat} {d : Drain}
    {result : BatchResult} {accepts : String → Bool} {random : Draw}
    (h : runSend m s i d result accepts random = some s') :
    ∃ chunk entries batchKey rest, d.calls = .batchSend chunk entries batchKey :: rest ∧
      s' = { s.setDrain i
          { d with calls := settleAnswer d.options random chunk result ++ rest } with
        sends := s.sends ++ [sendOf m s.table chunk entries batchKey accepts] } := by
  unfold runSend at h
  split at h
  · next chunk entries batchKey rest hcalls =>
      cases h
      exact ⟨chunk, entries, batchKey, rest, hcalls, rfl⟩
  · cases h

/-! ## Two letters -/

/-- SHA-256 at the strings that the runs below hash. -/
def letterDigest (s : String) : String :=
  if s = "a|b" then "0eab8a0a3380abf4c7d1fb0b43b66aafbb64a4b953e4eb2dccca579461912d0c"
  else if s.length < 200 then
    "bf49e4ea18311362b496093959444da86e93491c5b68b75100518fc0c83b4bb5"
  else "b7a3dbb43a735a68695dcb4ce7452ee39c15e6f913a842fd4980485ecd910b68"

def letterMailer : Mailer :=
  ⟨letterDigest, fun _ _ _ => .error "unknown template", some "noreply@example.com"⟩

def letter (id : String) : EmailRow where
  id := id
  kind := .raw
  template := none
  toAddress := id ++ "@example.com"
  subject := "Hello"
  locale := none
  payload := .obj [("html", .str "Hi"), ("text", .str "Hi")]
  status := .pending
  attempts := 0
  nextAttemptAt := none
  sentAt := none
  lastError := none
  providerMessageId := none
  idempotencyKey := none
  batchKey := none
  createdAt := 0

def emptyMail : MailState := ⟨0, Table.empty, [], [], []⟩

def hourlyReplay : EmailDeliveryOptions := ⟨120, 3600, 24⟩

def unlocked : String → Bool := fun _ => false

/-- The two letters are claimed, get their key, and are sent. -/
def lettersSent (result : BatchResult) (accepts : String → Bool) : List MailEvent :=
  [.enqueue (letter "a"), .enqueue (letter "b"), .claim unlocked 300 hourlyReplay,
    .nextChunk 0 false, .call 0 .written, .send 0 result accepts 0]

example : (exec (mailStep letterMailer) emptyMail
    (lettersSent (.answered none []) fun _ => true)).map
      (fun s => s.sends.map ProviderSend.ids) = some [["a", "b"]] := by
  decide +kernel

end CleanStack.Email
