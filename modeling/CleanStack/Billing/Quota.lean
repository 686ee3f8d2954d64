import CleanStack.Admin.StaffService
import CleanStack.Lib.Locks
import CleanStack.Lib.Runs

/-!
# Reserving a quota

`reserveQuota` takes an advisory lock named after the organization and the key,
counts, and throws unless the count is below the limit; the row it speaks for is
inserted afterwards, in the same transaction, which keeps the lock until it ends.

Any number of transactions run interleaved, statement by statement, at READ
COMMITTED: a count sees the rows committed before it and the ones its own
transaction inserted. A statement that waits for the lock goes on when nobody
holds it. The lock is kept under a number the database computes of its name, and
names may share one.
-/

namespace CleanStack.Billing

open CleanStack.Admin CleanStack.Lib

inductive QuotaKey
  | uploads
  | projects
  | apiCallsPerMonth
  deriving DecidableEq, Repr

def QuotaKey.text : QuotaKey → String
  | .uploads => "uploads"
  | .projects => "projects"
  | .apiCallsPerMonth => "apiCallsPerMonth"

def hasQuotaRemaining (used : Nat) (limit : Option Int) : Bool :=
  match limit with
  | none => true
  | some limit => decide ((used : Int) < limit)

def shownLimit : Option Int → String
  | none => "null"
  | some limit => toString limit

def assertQuota (used : Nat) (limit : Option Int) : Except AppError Unit :=
  if hasQuotaRemaining used limit then .ok ()
  else
    .error ⟨"BILLING_QUOTA_EXCEEDED",
      "Quota exceeded (" ++ toString used ++ "/" ++ shownLimit limit ++ ")."⟩

/-- A row of the table that `key` counts. -/
structure QuotaRow where
  key : QuotaKey
  orgId : String
  deriving DecidableEq, Repr

inductive QuotaPhase
  | opened
  /-- In the statement that takes the lock. -/
  | locking
  | locked
  | reserved
  | refused (error : AppError)
  | inserted
  | committed
  | rolledBack
  deriving DecidableEq, Repr

/-- A transaction that reserves one row of `key`; `own` is what it has inserted. -/
structure QuotaTx where
  orgId : String
  key : QuotaKey
  limit : Option Int
  phase : QuotaPhase
  own : List QuotaRow
  deriving DecidableEq, Repr

structure QuotaState where
  /-- The committed rows. -/
  rows : List QuotaRow
  locks : Locks Int Nat
  txs : List QuotaTx

inductive QuotaEvent
  | begin (orgId : String) (key : QuotaKey) (limit : Option Int)
  /-- `reserveQuota` is called. -/
  | reserve (i : Nat)
  | locked (i : Nat)
  | counted (i : Nat)
  | insert (i : Nat)
  | commit (i : Nat)
  | rollback (i : Nat)

def countRows (rows : List QuotaRow) (orgId : String) (key : QuotaKey) : Nat :=
  rows.countP fun row => row.key = key && row.orgId = orgId

/-- What transaction `tx` counts at READ COMMITTED. -/
def countScopedRows (s : QuotaState) (tx : QuotaTx) : Nat :=
  countRows (s.rows ++ tx.own) tx.orgId tx.key

def lockName (orgId : String) (key : QuotaKey) : String := orgId ++ ":" ++ key.text

/-- `reserveQuota` up to its first statement: whether there is one, and on which
lock. Outside of a transaction it throws. -/
def reserveQuota (ambientTransaction : Bool) (orgId : String) (key : QuotaKey)
    (limit : Option Int) : Except String (Option String) :=
  if limit.isNone then .ok none
  else if !ambientTransaction then
    .error "reserveQuota must run inside uow.run: its lock lives as long as the transaction"
  else .ok (some (lockName orgId key))

namespace QuotaState

variable (s : QuotaState) (i : Nat) (tx : QuotaTx)

def setPhase (phase : QuotaPhase) : QuotaState :=
  { s with txs := s.txs.set i { tx with phase } }

/-- The transaction ends and gives up its locks. -/
def ended (phase : QuotaPhase) : QuotaState :=
  { s.setPhase i tx phase with locks := s.locks.releaseAll i }

end QuotaState

/-- `hash` is `hashtextextended(key, 0)`. -/
def quotaStep (hash : String → Int) (s : QuotaState) : QuotaEvent → Option QuotaState
  | .begin orgId key limit =>
      some { s with txs := s.txs ++ [⟨orgId, key, limit, .opened, []⟩] }
  | .reserve i =>
      s.txs[i]?.bind fun tx =>
        if tx.phase = .opened then
          match reserveQuota true tx.orgId tx.key tx.limit with
          | .ok none => some (s.setPhase i tx .reserved)
          | .ok (some _) => some (s.setPhase i tx .locking)
          | .error _ => none
        else none
  | .locked i =>
      s.txs[i]?.bind fun tx =>
        if tx.phase = .locking then
          (s.locks.acquire (hash (lockName tx.orgId tx.key)) i).map fun locks =>
            { s.setPhase i tx .locked with locks := locks }
        else none
  | .counted i =>
      s.txs[i]?.bind fun tx =>
        if tx.phase = .locked then
          match assertQuota (countScopedRows s tx) tx.limit with
          | .ok () => some (s.setPhase i tx .reserved)
          | .error error => some (s.setPhase i tx (.refused error))
        else none
  | .insert i =>
      s.txs[i]?.bind fun tx =>
        if tx.phase = .reserved then
          some (s.setPhase i { tx with own := [⟨tx.key, tx.orgId⟩] } .inserted)
        else none
  | .commit i =>
      s.txs[i]?.bind fun tx =>
        if tx.phase = .inserted then
          some ({ s with rows := s.rows ++ tx.own }.ended i tx .committed)
        else none
  | .rollback i =>
      s.txs[i]?.bind fun tx =>
        if tx.phase = .committed ∨ tx.phase = .rolledBack then none
        else some (s.ended i tx .rolledBack)

end CleanStack.Billing
