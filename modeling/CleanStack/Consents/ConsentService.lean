import CleanStack.Lib.Table
import Mathlib.Data.List.Sort

/-!
# Cookie consent

`consent_record` is append-only: a grant and a withdrawal are both rows, and
`reconcile` only fills in the user of rows that had none. A withdrawal is a row
without categories whose `withdrawnAt` is set.

A call runs in one transaction. It may fail, at the insert or when it enqueues
its event, and then leaves nothing. The policy version is a constant of the
release that takes the call, so it comes with the call. Instants are the
milliseconds of `new Date()`.
-/

namespace CleanStack.Consents

open CleanStack.Lib

inductive ConsentCategory
  | necessary
  | functional
  | analytics
  | marketing
  deriving DecidableEq, Repr

abbrev Millis := Nat

def DAY_MS : Millis := 24 * 60 * 60 * 1000

def COOKIE_CONSENT_VERSION : String := "2026-07-09"

def CONSENT_GRANT_TTL_DAYS : Nat := 180

def CONSENT_REFUSAL_TTL_DAYS : Nat := 180

def daysAfter (from_ : Millis) (days : Nat) : Millis := from_ + DAY_MS * days

structure ConsentRecordRow where
  id : String
  subjectId : String
  userId : Option String
  categories : List ConsentCategory
  policyVersion : String
  grantedAt : Millis
  withdrawnAt : Option Millis
  expiresAt : Millis
  ipAddress : Option String
  userAgent : Option String
  deriving DecidableEq, Repr

instance : Keyed ConsentRecordRow String := ⟨ConsentRecordRow.id⟩

/-- What the calls announce. -/
inductive ConsentNews
  | granted (row : ConsentRecordRow)
  | withdrawn (row : ConsentRecordRow)
  | linked (userId subjectId : String) (consentRecordIds : List String)
  deriving DecidableEq, Repr

structure ConsentDb where
  records : Table ConsentRecordRow
  outbox : List ConsentNews

def emptyDb : ConsentDb := ⟨Table.empty, []⟩

/-! ## record and withdraw -/

structure RecordConsentInput where
  subjectId : String
  userId : Option String
  categories : List ConsentCategory
  ip : Option String
  ua : Option String

structure WithdrawConsentInput where
  subjectId : String
  userId : Option String

/-- What a call finds where it runs: the clock, a random id, the policy version
of the release, and whether its transaction goes wrong. -/
structure CallContext where
  now : Millis
  uuid : String
  cookieConsentVersion : String
  fails : Bool

def grantRow (c : CallContext) (input : RecordConsentInput) : ConsentRecordRow where
  id := c.uuid
  subjectId := input.subjectId
  userId := input.userId
  categories :=
    if input.categories.contains .necessary then input.categories
    else .necessary :: input.categories
  policyVersion := c.cookieConsentVersion
  grantedAt := c.now
  withdrawnAt := none
  expiresAt := daysAfter c.now CONSENT_GRANT_TTL_DAYS
  ipAddress := input.ip
  userAgent := input.ua

def withdrawalRow (c : CallContext) (input : WithdrawConsentInput) : ConsentRecordRow where
  id := c.uuid
  subjectId := input.subjectId
  userId := input.userId
  categories := []
  policyVersion := c.cookieConsentVersion
  grantedAt := c.now
  withdrawnAt := some c.now
  expiresAt := daysAfter c.now CONSENT_REFUSAL_TTL_DAYS
  ipAddress := none
  userAgent := none

/-- The insert and the event of one call, or nothing. -/
def append (db : ConsentDb) (fails : Bool) (row : ConsentRecordRow) (news : ConsentNews) :
    ConsentDb :=
  if fails then db
  else
    match db.records.insert row with
    | none => db
    | some records => ⟨records, db.outbox ++ [news]⟩

def record (db : ConsentDb) (c : CallContext) (input : RecordConsentInput) : ConsentDb :=
  let row := grantRow c input
  append db c.fails row (.granted row)

def withdraw (db : ConsentDb) (c : CallContext) (input : WithdrawConsentInput) : ConsentDb :=
  let row := withdrawalRow c input
  append db c.fails row (.withdrawn row)

/-! ## reconcile -/

def orphanOf (subjectId : String) (r : ConsentRecordRow) : Bool :=
  decide (r.subjectId = subjectId) && r.userId.isNone

def linkedTo (userId : String) (r : ConsentRecordRow) : ConsentRecordRow :=
  { r with userId := some userId }

/-- `linkSubjectToUser`: the table it leaves and the ids it returns. -/
def linkSubjectToUser (t : Table ConsentRecordRow) (subjectId userId : String) :
    Table ConsentRecordRow × List String :=
  (t.update (orphanOf subjectId) (linkedTo userId) fun _ => rfl,
    (t.returning (orphanOf subjectId) (linkedTo userId)).map ConsentRecordRow.id)

def reconcile (db : ConsentDb) (fails : Bool) (subjectId userId : String) : ConsentDb :=
  if fails then db
  else
    let (records, ids) := linkSubjectToUser db.records subjectId userId
    if ids = [] then ⟨records, db.outbox⟩
    else ⟨records, db.outbox ++ [.linked userId subjectId ids]⟩

/-! ## getActive -/

/-- The rows `latestActive` selects from, whoever owns them. -/
def activeRow (now : Millis) (policyVersion : String) (r : ConsentRecordRow) : Bool :=
  decide (r.policyVersion = policyVersion) && r.withdrawnAt.isNone && decide (now < r.expiresAt)

def latestActive (t : Table ConsentRecordRow) (owner : ConsentRecordRow → Bool)
    (policyVersion : String) (now : Millis) : Option ConsentRecordRow :=
  ((t.rows.filter fun r => owner r && activeRow now policyVersion r).insertionSort
    fun a b => b.grantedAt ≤ a.grantedAt).head?

def ownedBySubject (subjectId : String) (r : ConsentRecordRow) : Bool :=
  decide (r.subjectId = subjectId)

def ownedByUser (userId : String) (r : ConsentRecordRow) : Bool :=
  decide (r.userId = some userId)

def findActiveBySubject (t : Table ConsentRecordRow) (now : Millis)
    (subjectId policyVersion : String) : Option ConsentRecordRow :=
  latestActive t (ownedBySubject subjectId) policyVersion now

def findActiveByUser (t : Table ConsentRecordRow) (now : Millis)
    (userId policyVersion : String) : Option ConsentRecordRow :=
  latestActive t (ownedByUser userId) policyVersion now

/-- A lookup that fails returns no record. An empty user id is no user id. -/
def getActive (t : Table ConsentRecordRow) (now : Millis) (subjectId policyVersion : String)
    (userId : Option String) : Option ConsentRecordRow :=
  match userId.filter (· ≠ "") with
  | none => findActiveBySubject t now subjectId policyVersion
  | some user =>
      match findActiveByUser t now user policyVersion with
      | some row => some row
      | none => findActiveBySubject t now subjectId policyVersion

/-! ## Sequences of calls -/

inductive ConsentCall
  | record (c : CallContext) (input : RecordConsentInput)
  | withdraw (c : CallContext) (input : WithdrawConsentInput)
  | reconcile (fails : Bool) (subjectId userId : String)

def callStep (db : ConsentDb) : ConsentCall → Option ConsentDb
  | .record c input => some (record db c input)
  | .withdraw c input => some (withdraw db c input)
  | .reconcile fails subjectId userId => some (reconcile db fails subjectId userId)

/-- When a call read the clock. -/
def ConsentCall.instant : ConsentCall → Option Millis
  | .record c _ => some c.now
  | .withdraw c _ => some c.now
  | .reconcile .. => none

end CleanStack.Consents
