import CleanStack.Email.Enqueue
import CleanStack.Events.NotificationMap
import CleanStack.Lib.Grouping
import CleanStack.Lib.Table

/-!
# Flushing the notification digests

`/internal/flush-notification-emails` and the store under it. One transaction,
taken under an advisory lock, reads the due notifications page by page, marks
every row of a page before it reads the next, and at the end queues one digest
for each user and category.

A page is read in a statement of its own, so it sees the users and the
preferences of its own time, and it skips the rows other transactions have locked
by then; a `PageRead` holds all that. A row that is inserted while a flush runs
is to the flush a row that was locked on the pages before. The loop runs on fuel,
and a flush that stops for want of it is a process that stopped.
-/

namespace CleanStack.Notifications

open CleanStack.Lib CleanStack.Drizzle CleanStack.Kit CleanStack.Email CleanStack.Events
open CleanStack.Admin (AppError)

def categoryText : NotificationCategory → String
  | .security => "security"
  | .org => "org"
  | .billing => "billing"
  | .activity => "activity"

/-- The ids are random UUIDs. -/
structure NotificationRow where
  id : String
  userId : String
  organizationId : Option String
  category : NotificationCategory
  eventType : String
  payload : JsValue
  emailPendingAt : Option Time
  emailSentAt : Option Time
  id_plain : '|' ∉ id.toList

instance : Keyed NotificationRow String := ⟨NotificationRow.id⟩

structure DigestUser where
  id : String
  email : String
  locale : Option String

instance : Keyed DigestUser String := ⟨DigestUser.id⟩

inductive PreferenceScope
  | user
  | org
  deriving DecidableEq, Repr

inductive NotificationChannel
  | in_app
  | email
  deriving DecidableEq, Repr

structure PreferenceRow where
  scope : PreferenceScope
  scopeId : String
  category : String
  channel : NotificationChannel
  enabled : Bool
  locked : Bool

/-- `notification_preference_uidx` -/
instance : Keyed PreferenceRow (PreferenceScope × String × String × NotificationChannel) :=
  ⟨fun p => (p.scope, p.scopeId, p.category, p.channel)⟩

/-! ## The store -/

/-- `COALESCE(…, TRUE)` -/
def coalesceTrue (values : List (Option Bool)) : Bool := (values.findSome? id).getD true

def mailPreference (preferences : Table PreferenceRow) (scope : PreferenceScope)
    (scopeId : String) (category : NotificationCategory) : Option PreferenceRow :=
  preferences.find? (scope, scopeId, categoryText category, .email)

/-- An organization's locked choice wins, then the user's, then the organization's
default. -/
def preferenceWants (preferences : Table PreferenceRow) (n : NotificationRow) : Bool :=
  let upMail := mailPreference preferences .user n.userId n.category
  let opMail := n.organizationId.bind fun organizationId =>
    mailPreference preferences .org organizationId n.category
  coalesceTrue [
    opMail.bind fun p => if p.locked then some p.enabled else none,
    upMail.map PreferenceRow.enabled,
    opMail.map PreferenceRow.enabled]

def emailStillWanted (preferences : Table PreferenceRow) (n : NotificationRow) : Bool :=
  FORCED_EVENT_TYPES.contains n.eventType || preferenceWants preferences n

def isDueAt (now : Time) (n : NotificationRow) : Bool :=
  n.emailPendingAt.any (fun pendingAt => pendingAt ≤ now) && n.emailSentAt.isNone

structure PendingRow where
  id : String
  userId : String
  category : NotificationCategory
  eventType : String
  email : String
  locale : Option String
  payload : JsValue

structure DueNotification extends PendingRow where
  emailStillWanted : Bool

/-- What the statements of one page meet. Postgres returns the rows in any order it
likes. -/
structure PageRead where
  users : Table DigestUser
  preferences : Table PreferenceRow
  locked : String → Bool
  order : List NotificationRow → List NotificationRow
  order_perm : ∀ rows, (order rows).Perm rows
  claimFails : Bool
  dropFails : Bool
  markFails : Bool

/-- `dbOperationFailure("NOTIFICATION_DIGEST_PROVIDER_FAILURE")` -/
def storeFailure (operation : String) : AppError :=
  ⟨"NOTIFICATION_DIGEST_PROVIDER_FAILURE", "database operation failed: " ++ operation⟩

/-- The row of the joins: none without the user. -/
def joinedRow (page : PageRead) (n : NotificationRow) : Option DueNotification :=
  (page.users.find? n.userId).map fun user =>
    { id := n.id
      userId := n.userId
      category := n.category
      eventType := n.eventType
      email := user.email
      locale := user.locale
      payload := n.payload
      emailStillWanted := emailStillWanted page.preferences n }

def freeDue (page : PageRead) (t : Table NotificationRow) (now : Time) : List NotificationRow :=
  t.rows.filter fun n => isDueAt now n && !page.locked n.id

def claimDue (page : PageRead) (t : Table NotificationRow) (now : Time) (limit : Nat) :
    Except AppError (List DueNotification) :=
  if page.claimFails then .error (storeFailure "claimDue")
  else .ok (((page.order (freeDue page t now)).filterMap (joinedRow page)).take limit)

def dropUnwanted (page : PageRead) (t : Table NotificationRow) (ids : List String) :
    Except AppError (Table NotificationRow) :=
  if page.dropFails then .error (storeFailure "dropUnwanted")
  else .ok (t.update (fun n => ids.contains n.id)
    (fun n => { n with emailPendingAt := none }) fun _ => rfl)

def markSent (page : PageRead) (t : Table NotificationRow) (ids : List String) (sentAt : Time) :
    Except AppError (Table NotificationRow) :=
  if page.markFails then .error (storeFailure "markSent")
  else .ok (t.update (fun n => ids.contains n.id)
    (fun n => { n with emailSentAt := some sentAt }) fun _ => rfl)

/-! ## The pages -/

/-- What the transaction sees, the rows it will send, and the pages it has read,
which nothing but the proofs looks at. -/
structure PagesRead where
  notifications : Table NotificationRow
  rows : List PendingRow
  read : List (List DueNotification)

/-- Marks the rows of a page. Neither statement runs without rows. -/
def resolvePage (page : PageRead) (now : Time) (candidates : List DueNotification) (s : PagesRead) :
    Except AppError PagesRead := do
  let droppedIds := (candidates.filter fun c => !c.emailStillWanted).map fun c => c.id
  let t ← (if 0 < droppedIds.length then dropUnwanted page s.notifications droppedIds
    else .ok s.notifications)
  let allowed := candidates.filter fun c => c.emailStillWanted
  let t ← (if 0 < allowed.length then markSent page t (allowed.map fun c => c.id) now
    else .ok t)
  .ok ⟨t, s.rows ++ allowed.map DueNotification.toPendingRow, s.read ++ [candidates]⟩

def flushPages (now : Time) (batchSize : Nat) (pages : Nat → PageRead) :
    Nat → Nat → PagesRead → Option (Except AppError PagesRead)
  | 0, _, _ => none
  | fuel + 1, index, s =>
      match claimDue (pages index) s.notifications now batchSize with
      | .error e => some (.error e)
      | .ok candidates =>
          if candidates.length = 0 then some (.ok s)
          else
            match resolvePage (pages index) now candidates s with
            | .error e => some (.error e)
            | .ok s' =>
                if candidates.length < batchSize then some (.ok s')
                else flushPages now batchSize pages fuel (index + 1) s'

/-! ## The digests -/

structure DigestItem where
  eventType : String
  payload : JsValue

structure DigestGroup where
  userId : String
  email : String
  category : NotificationCategory
  locale : Option String
  notificationIds : List String
  items : List DigestItem

def groupKeyOf (row : PendingRow) : String := row.userId ++ ":" ++ categoryText row.category

/-- A group takes the address and the locale of the row it was opened with. -/
def digestOf : List PendingRow → Option DigestGroup
  | [] => none
  | row :: rest => some
      { userId := row.userId
        email := row.email
        category := row.category
        locale := row.locale
        notificationIds := (row :: rest).map PendingRow.id
        items := (row :: rest).map fun r => ⟨r.eventType, r.payload⟩ }

def buildDigests (rows : List PendingRow) : List DigestGroup :=
  (groupsOf groupKeyOf rows).filterMap fun group => digestOf group.2

/-- `b.toString(16).padStart(2, "0")` -/
def byteText (b : UInt8) : List Char := [hexDigit (b.toNat / 16), hexDigit (b.toNat % 16)]

def digestIdempotencyKey (sha256 : String → List UInt8) (ids : List String) : String :=
  let raw := joinWith "|" (ids.insertionSort fun a b => stringLe a b = true)
  String.ofList ((sha256 raw).flatMap byteText)

def digestRecipient (sha256 : String → List UInt8) (d : DigestGroup) : EmailRecipient where
  address := d.email
  «variables» := .obj [
    ("category", .str (categoryText d.category)),
    ("itemCount", .str (toString d.items.length)),
    ("itemsSummary", .str (joinWith ", " (d.items.map DigestItem.eventType)))]
  locale := some (toLocale d.locale)
  idempotencyKey := some (digestIdempotencyKey sha256 d.notificationIds)

/-! ## The flush -/

/-- The notifications and the mail queue, and the digests whose mails were written
by a flush that committed. -/
structure DigestDb where
  notifications : Table NotificationRow
  emails : EmailTable
  digests : List DigestGroup

def emptyDigestDb : DigestDb := ⟨Table.empty, Table.empty, []⟩

structure Flush where
  now : Time
  batchSize : Nat
  beginFails : Bool
  locked : Bool
  pages : Nat → PageRead
  answer : InsertAnswer

structure FlushOutcome where
  skipped : Bool
  flushed : Nat
  notifications : Nat
  deriving DecidableEq

/-- The digests whose rows were written. -/
def writtenDigests (digests : List DigestGroup) (written : List Bool) : List DigestGroup :=
  ((digests.zip written).filter fun p => p.2).map Prod.fst

variable (sha256 : String → List UInt8) (subjectOf : String → JsValue → Email.Locale → String)

/-- The end of the transaction, after the last page. -/
def sendDigests (answer : InsertAnswer) (s : PagesRead) (db : DigestDb) :
    Except AppError (FlushOutcome × DigestDb) :=
  if s.rows.length = 0 then
    .ok (⟨false, 0, 0⟩, { db with notifications := s.notifications })
  else
    let digests := buildDigests s.rows
    match sendTemplateBatch subjectOf answer db.emails "notification_digest"
        (digests.map (digestRecipient sha256)) none with
    | .error e => .error e
    | .ok (emails, written) =>
        .ok (⟨false, digests.length, s.rows.length⟩,
          { notifications := s.notifications
            emails := emails
            digests := db.digests ++ writtenDigests digests written })

/-- The transaction of `flushDueNotifications`: what it would commit, and `none`
while its pages go on. -/
def flushDueNotifications (f : Flush) (fuel : Nat) (db : DigestDb) :
    Option (Except AppError (FlushOutcome × DigestDb)) :=
  if f.beginFails then some (.error (storeFailure "beginFlush"))
  else if !f.locked then some (.ok (⟨true, 0, 0⟩, db))
  else
    match flushPages f.now f.batchSize f.pages fuel 0 ⟨db.notifications, [], []⟩ with
    | none => none
    | some (.error e) => some (.error e)
    | some (.ok s) => some (sendDigests sha256 subjectOf f.answer s db)

/-! ## Runs -/

def isHexText (key : String) : Bool :=
  key.toList.all fun c => c.isDigit || ('a' ≤ c && c ≤ 'f')

/-- Everything else that happens to the mail queue is `mails`: the keys of other mails
name what they are about with `/`, `:` and `#`. -/
inductive DigestEvent
  | insert (n : NotificationRow)
  | delete (gone : NotificationRow → Bool)
  | mails (emails : EmailTable)
  | flush (f : Flush) (fuel : Nat) (commits : Bool)

def inDigests (digests : List DigestGroup) (id : String) : Bool :=
  digests.any fun d => d.notificationIds.contains id

/-- A flush that fails, that stops before its end or whose commit fails leaves
nothing behind. -/
def digestStep (db : DigestDb) : DigestEvent → Option DigestDb
  | .insert n =>
      if n.emailSentAt.isNone && !inDigests db.digests n.id then
        (db.notifications.insert n).map fun t => { db with notifications := t }
      else none
  | .delete gone => some { db with notifications := db.notifications.delete gone }
  | .mails emails =>
      if emails.rows.all fun m => m.idempotencyKey.all fun key =>
          !isHexText key || db.emails.rows.any fun old => old.idempotencyKey = some key then
        some { db with emails := emails }
      else none
  | .flush f fuel commits =>
      match flushDueNotifications sha256 subjectOf f fuel db with
      | some (.ok (_, db')) => some (if commits then db' else db)
      | _ => some db

end CleanStack.Notifications
