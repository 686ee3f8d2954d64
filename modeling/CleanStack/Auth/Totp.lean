import CleanStack.Lib.Runs
import CleanStack.Lib.Table

/-!
# Consuming a TOTP code

`consume` reads the secret of a user, looks for a counter around the present
whose code is the one given, and raises the user's counter to it in one upsert.
The upsert is the only statement that decides anything: it is refused when the
counter is not above the one written.

A call runs inside a transaction, as a step-up does, or outside any, as the
confirmation of an account deletion does. Any number of either interleave, and
an upsert waits for a transaction that has written the same row.

How a secret is decrypted and what code a counter has are parameters: nothing
here depends on the codes of different counters being different.
-/

namespace CleanStack.Auth

open CleanStack.Lib

def CLOCK_DRIFT_STEPS : Nat := 1

/-- The period of a code, in seconds. -/
def TOTP_PERIOD : Int := 30

structure TwoFactorRow where
  userId : String
  secret : String
  verified : Option Bool

structure TotpCounterRow where
  userId : String
  lastCounter : Int
  deriving DecidableEq

instance : Keyed TotpCounterRow String := ⟨fun r => r.userId⟩

abbrev TotpCounterTable := Table TotpCounterRow

inductive TotpOutcome
  | accepted
  | replayed
  | invalid
  | notEnrolled
  deriving DecidableEq, Repr

/-- The codes of a secret; `none` where computing one throws. -/
structure TotpCodes (Secret : Type) where
  decryptSecret : String → Option Secret
  hotp : Secret → Int → Option String

/-! ## The counter a code stands for -/

def currentCounter (now : Int) : Int := now / (TOTP_PERIOD * 1000)

/-- `-CLOCK_DRIFT_STEPS` to `CLOCK_DRIFT_STEPS`. -/
def driftSteps : List Int :=
  (List.range (2 * CLOCK_DRIFT_STEPS + 1)).map fun (k : Nat) => (k : Int) - CLOCK_DRIFT_STEPS

/-- The loop: a later counter that matches replaces an earlier one. -/
def matchLoop (hotp : Int → Option String) (code : String) (current : Int) :
    List Int → Option Int → Option (Option Int)
  | [], found => some found
  | step :: steps, found =>
      (hotp (current + step)).bind fun expected =>
        matchLoop hotp code current steps
          (if code = expected then some (current + step) else found)

/-- `none` when no counter matches, or when one of the codes cannot be computed. -/
def matchedCounter (hotp : Int → Option String) (code : String) (now : Int) : Option Int :=
  (matchLoop hotp code (currentCounter now) driftSteps none).join

/-- The counter of a call, or the outcome it ends with before it writes. -/
def consumeRead {Secret : Type} (codes : TotpCodes Secret) (rows : List TwoFactorRow)
    (userId code : String) (now : Int) : Except TotpOutcome Int :=
  match rows.find? fun r => r.userId = userId && r.verified != some false with
  | none => .error .notEnrolled
  | some row =>
      if row.secret.isEmpty then .error .notEnrolled
      else
        match (codes.decryptSecret row.secret).bind fun secret =>
            matchedCounter (codes.hotp secret) code now with
        | none => .error .invalid
        | some counter => .ok counter

/-! ## The counter table -/

def counterSet (counter : Int) (r : TotpCounterRow) : TotpCounterRow :=
  { r with lastCounter := counter }

theorem counterSet_userId (counter : Int) (r : TotpCounterRow) :
    Keyed.key (counterSet counter r) = Keyed.key r :=
  rfl

def writeCounter (t : TotpCounterTable) (userId : String) (counter : Int) : TotpCounterTable :=
  t.upsert ⟨userId, counter⟩ (counterSet counter) (counterSet_userId counter)

/-- No row, or `last_counter < counter`. -/
def raisesCounter (t : TotpCounterTable) (userId : String) (counter : Int) : Bool :=
  (t.find? userId).all fun r => r.lastCounter < counter

/-! ## Calls side by side -/

inductive TotpPhase
  | matched (counter : Int)
  | answered (outcome : TotpOutcome)
  deriving DecidableEq

/-- `transaction` is the one the call runs in, if any, and `readAt` what the clock
said when the code was looked up. -/
structure TotpCall where
  transaction : Option Nat
  userId : String
  readAt : Int
  phase : TotpPhase
  deriving DecidableEq

structure TotpAcceptance where
  userId : String
  counter : Int
  readAt : Int
  deriving DecidableEq

/-- The rows a transaction has written, the oldest first, and the users whose row
it has locked. -/
structure TotpTransaction where
  writes : List TotpAcceptance
  locked : List String

/-- `accepted` are the acceptances that have been committed. -/
structure TotpState where
  counters : TotpCounterTable
  transactions : List (Option TotpTransaction)
  calls : List TotpCall
  accepted : List TotpAcceptance

inductive TotpEvent
  | begins
  /-- A call up to its upsert, on the rows it reads. -/
  | read (transaction : Option Nat) (rows : List TwoFactorRow) (userId code : String) (now : Int)
  | upsert (k : Nat)
  | commit (i : Nat)
  | rollback (i : Nat)

def applyWrites (t : TotpCounterTable) (writes : List TotpAcceptance) : TotpCounterTable :=
  writes.foldl (fun t w => writeCounter t w.userId w.counter) t

def TotpState.openAt (s : TotpState) (i : Nat) : Option TotpTransaction :=
  s.transactions[i]?.join

/-- Another transaction has the row of the user. -/
def TotpState.waits (s : TotpState) (transaction : Option Nat) (userId : String) : Bool :=
  (List.range s.transactions.length).any fun j =>
    decide (some j ≠ transaction) && (s.openAt j).any fun tx => tx.locked.contains userId

def TotpState.answer (s : TotpState) (k : Nat) (call : TotpCall) (accepts : Bool) : TotpState :=
  { s with
    calls := s.calls.set k
      { call with phase := .answered (if accepts then .accepted else .replayed) } }

variable {Secret : Type} (codes : TotpCodes Secret)

def totpStep (s : TotpState) : TotpEvent → Option TotpState
  | .begins => some { s with transactions := s.transactions ++ [some ⟨[], []⟩] }
  | .read transaction rows userId code now =>
      let phase : TotpPhase :=
        match consumeRead codes rows userId code now with
        | .error outcome => .answered outcome
        | .ok counter => .matched counter
      some { s with calls := s.calls ++ [⟨transaction, userId, now, phase⟩] }
  | .upsert k =>
      s.calls[k]?.bind fun call =>
        match call.phase with
        | .answered _ => none
        | .matched counter =>
            if s.waits call.transaction call.userId then none
            else
              let acceptance : TotpAcceptance := ⟨call.userId, counter, call.readAt⟩
              match call.transaction with
              | none =>
                  let accepts := raisesCounter s.counters call.userId counter
                  if accepts then
                    some { s.answer k call accepts with
                      counters := writeCounter s.counters call.userId counter
                      accepted := s.accepted ++ [acceptance] }
                  else some (s.answer k call accepts)
              | some i =>
                  (s.openAt i).map fun tx =>
                    let accepts :=
                      raisesCounter (applyWrites s.counters tx.writes) call.userId counter
                    { s.answer k call accepts with
                      transactions := s.transactions.set i (some
                        { writes := if accepts then tx.writes ++ [acceptance] else tx.writes
                          locked := call.userId :: tx.locked }) }
  | .commit i =>
      (s.openAt i).map fun tx =>
        { s with
          counters := applyWrites s.counters tx.writes
          transactions := s.transactions.set i none
          accepted := s.accepted ++ tx.writes }
  | .rollback i =>
      (s.openAt i).map fun _ => { s with transactions := s.transactions.set i none }

/-! ## What the table says of a user -/

def lastOf (t : TotpCounterTable) (userId : String) : Option Int :=
  (t.find? userId).map TotpCounterRow.lastCounter

def countersOf (userId : String) (log : List TotpAcceptance) : List Int :=
  (log.filter fun a => a.userId = userId).map TotpAcceptance.counter

theorem lastOf_writeCounter {t : TotpCounterTable} {userId other : String} {counter : Int} :
    lastOf (writeCounter t userId counter) other =
      if userId = other then some counter else lastOf t other := by
  unfold lastOf writeCounter
  by_cases hother : userId = other
  · rw [if_pos hother, Table.find?_upsert_of_key hother]
    cases t.find? other with
    | none => rfl
    | some row => rfl
  · rw [if_neg hother, Table.find?_upsert_of_ne hother]

theorem countersOf_append {userId : String} {log more : List TotpAcceptance} :
    countersOf userId (log ++ more) = countersOf userId log ++ countersOf userId more := by
  rw [countersOf, List.filter_append, List.map_append]
  rfl

theorem countersOf_cons {userId : String} {a : TotpAcceptance} {log : List TotpAcceptance} :
    countersOf userId (a :: log) =
      if a.userId = userId then a.counter :: countersOf userId log else countersOf userId log := by
  unfold countersOf
  by_cases huser : a.userId = userId
  · simp [huser]
  · simp [huser]

end CleanStack.Auth
