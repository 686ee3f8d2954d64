import CleanStack.Admin.StaffService
import CleanStack.Billing.StripeEvents
import CleanStack.Lib.Runs

/-!
# Replaying a Stripe event

`replay` looks an event up, fetches a copy of it, claims the event, hands the
copy to the handler once more and writes down what came of it. It awaits between
any two of these, and a redelivery takes as long as it takes, so every replay
is a run of its own that moves one await at a time, and `replayStep` lets any
number of them interleave.

What Stripe answers, what the handler makes of the copy and which statements
fail are choices of the environment. A run that is left alone has crashed.
-/

namespace CleanStack.Admin

open CleanStack.Lib CleanStack.Drizzle CleanStack.Billing

def REPLAY_CLAIM_SECONDS : Nat := 120

def stripeUnavailable : AppError :=
  ⟨"ADMIN_STRIPE_UNAVAILABLE", "Stripe is not configured on this platform."⟩

def stripeEventNotFound : AppError :=
  ⟨"ADMIN_STRIPE_EVENT_NOT_FOUND",
    "No record of this event here: it was purged past its retention or never arrived."⟩

def replayBlocked (type : String) : AppError :=
  ⟨"ADMIN_STRIPE_REPLAY_BLOCKED",
    "The platform does not process " ++ type ++ " events, a replay would change nothing."⟩

def replayConflict : AppError :=
  ⟨"ADMIN_STRIPE_REPLAY_CONFLICT",
    "This event was just replayed. Check its status before trying again."⟩

def replayFailure (message : String) : AppError :=
  ⟨"ADMIN_STRIPE_REPLAY_PROVIDER_FAILURE", message⟩

/-- The checks before the copy is fetched: the id and the type of the event. -/
def replayable (configured : Bool) (found : Option StripeEventRow) :
    Except AppError (String × String) :=
  if configured then
    match found with
    | none => .error stripeEventNotFound
    | some known =>
        if isReplayableStripeEvent known.type then .ok (known.id, known.type)
        else .error (replayBlocked known.type)
  else .error stripeUnavailable

/-- What the row says of a failure after the redelivery; `read` is the error of
the read, if it fails. -/
def recordedFailure (found : Option StripeEventRow) (read : Option AppError) : Option String :=
  match read with
  | some error => some error.message
  | none =>
      (found.filter fun row => row.status = .failed).map fun row =>
        row.lastError.getD "The replay did not sync."

def failureOf (found : Option StripeEventRow) (read : Option AppError)
    (delivered : Except AppError Unit) : Option String :=
  let recorded := recordedFailure found read
  match delivered with
  | .ok _ => recorded
  | .error error => if recorded.isSome then recorded else some error.message

/-- The writes of the transaction that ends a replay. -/
def settleReplay (t : StripeEventTable) (now : Time) (id type : String) :
    Option String → StripeEventTable
  | some reason => releaseReplay (recordDelivery t now id type (some reason)) id
  | none => markReplayed t now id

/-! ## Replays side by side -/

inductive ReplayPhase
  | copied
  | claimed (claimedAt : Time)
  | redelivering (claimedAt startedAt : Time)
  | delivered (claimedAt : Time) (answer : Except AppError Unit)
  | judged (claimedAt : Time) (failure : Option String)
  | over (result : Except AppError Unit)
  deriving DecidableEq

structure ReplayRun where
  actorUserId : String
  eventId : String
  type : String
  phase : ReplayPhase
  deriving DecidableEq

/-- What `admin.ops.stripe_event_replayed` tells. -/
structure ReplayAnnouncement where
  actorUserId : String
  stripeEventId : String
  stripeEventType : String
  succeeded : Bool

structure ReplayState where
  clock : Time
  events : StripeEventTable
  runs : List ReplayRun
  outbox : List ReplayAnnouncement

inductive ReplayEvent
  /-- A call of `replay`, up to the copy of the event. -/
  | call (actorUserId stripeEventId : String) (configured : Bool) (retrieved : Option AppError)
  | claim (i : Nat)
  | redeliver (i : Nat)
  | answer (i : Nat) (delivered : Except AppError Unit)
  | judge (i : Nat) (read : Option AppError)
  /-- The last transaction, and the error it is rolled back with, if one is met. -/
  | settle (i : Nat) (rollback : Option AppError)
  /-- Stripe delivers an event, for the first time or again. -/
  | deliver (id type : String) (lastError : Option String)
  | wait (n : Nat)

def ReplayState.setRun (s : ReplayState) (i : Nat) (run : ReplayRun) (phase : ReplayPhase) :
    ReplayState :=
  { s with runs := s.runs.set i { run with phase } }

def replayStep (s : ReplayState) : ReplayEvent → Option ReplayState
  | .call actorUserId stripeEventId configured retrieved =>
      match replayable configured (s.events.find? stripeEventId), retrieved with
      | .ok (id, type), none =>
          some { s with runs := s.runs ++ [⟨actorUserId, id, type, .copied⟩] }
      | _, _ => some s
  | .claim i =>
      s.runs[i]?.bind fun run =>
        match run.phase with
        | .copied =>
            let (events, claimed) := claimReplay s.events s.clock run.eventId REPLAY_CLAIM_SECONDS
            if claimed then some { s.setRun i run (.claimed s.clock) with events }
            else some (s.setRun i run (.over (.error replayConflict)))
        | _ => none
  | .redeliver i =>
      s.runs[i]?.bind fun run =>
        match run.phase with
        | .claimed claimedAt => some (s.setRun i run (.redelivering claimedAt s.clock))
        | _ => none
  | .answer i delivered =>
      s.runs[i]?.bind fun run =>
        match run.phase with
        | .redelivering claimedAt _ => some (s.setRun i run (.delivered claimedAt delivered))
        | _ => none
  | .judge i read =>
      s.runs[i]?.bind fun run =>
        match run.phase with
        | .delivered claimedAt delivered =>
            some (s.setRun i run (.judged claimedAt
              (failureOf (s.events.find? run.eventId) read delivered)))
        | _ => none
  | .settle i rollback =>
      s.runs[i]?.bind fun run =>
        match run.phase, rollback with
        | .judged _ _, some error => some (s.setRun i run (.over (.error error)))
        | .judged _ failure, none =>
            some { s.setRun i run (.over (match failure with
                | none => .ok ()
                | some message => .error (replayFailure message))) with
              events := settleReplay s.events s.clock run.eventId run.type failure
              outbox := s.outbox ++ [⟨run.actorUserId, run.eventId, run.type, failure.isNone⟩] }
        | _, _ => none
  | .deliver id type lastError =>
      some { s with events := recordDelivery s.events s.clock id type lastError }
  | .wait n => some { s with clock := s.clock + n }

/-! ## The claims that are held -/

/-- When the claim of a run was taken, until the run settles. -/
def ReplayPhase.claimedAt? : ReplayPhase → Option Time
  | .claimed claimedAt => some claimedAt
  | .redelivering claimedAt _ => some claimedAt
  | .delivered claimedAt _ => some claimedAt
  | .judged claimedAt _ => some claimedAt
  | _ => none

/-- When the redelivery of a run started, while it is running. -/
def ReplayPhase.startedAt? : ReplayPhase → Option Time
  | .redelivering _ startedAt => some startedAt
  | _ => none

end CleanStack.Admin
