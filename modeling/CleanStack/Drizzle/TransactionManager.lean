import Mathlib.Data.List.Basic

/-!
# The transaction manager

`TransactionService.run` and `savepoint`, over work that awaits every call it
makes. Work is known by what it does in its scope, in order: it adds events,
calls `run` or `savepoint`, and settles. A call that throws hands its error to
the work that made it, which may swallow it, settle as it likes, or throw the
same error on. That last way is the only one to throw the rollback of another
run, whose class the module keeps to itself.

A scope is the pair of a transaction and the events added in it, and lives in
the async context: every call opens one and the calls of awaited work nest, so
the events of the current scope are threaded through `eval` and the ones of an
enclosing scope wait for the call to settle.

Database writes are a journal. The writes that come with an event are an entry
each, a flush is one entry, a savepoint that throws takes back what was written
since it began, and a transaction that throws leaves nothing.
-/

namespace CleanStack.Drizzle

structure DomainEvent where
  eventType : String
  aggregateId : String
  deriving DecidableEq

/-- A flush handler, by identity. -/
abbrev FlushHandler := Nat

abbrev Transaction := Nat

/-- What a flush handler throws, if it throws. -/
abbrev FlushOutcome := FlushHandler → List DomainEvent → Option String

inductive Entry
  | wrote (event : DomainEvent)
  | flushed (handler : FlushHandler) (events : List DomainEvent)

inductive Thrown
  | failedResultRollback (result : String)
  | eventsWithoutOutbox (events : List DomainEvent)
  | error (message : String)

/-- How a call settles; `value` is anything but a failed `Result`. -/
inductive Settled
  | value
  | failedResult (result : String)
  | threw (error : Thrown)

structure TransactionService where
  flushHandler : Option FlushHandler

/-! ## Work -/

/-- How work settles. `rethrows i` throws the `i`-th of the errors its calls
threw, the latest first. -/
inductive Ends
  | returns
  | returnsFailed (result : String)
  | throws (message : String)
  | rethrows (i : Nat)

inductive Work
  | done (ends : Ends)
  | add (events : List DomainEvent) (rest : Work)
  | run (service : TransactionService) (work rest : Work)
  | savepoint (work rest : Work)

def Ends.settle (caught : List Thrown) : Ends → Settled
  | .returns => .value
  | .returnsFailed result => .failedResult result
  | .throws message => .threw (.error message)
  | .rethrows i =>
      match caught[i]? with
      | some error => .threw error
      | none => .value

def Settled.thrown : Settled → List Thrown
  | .threw error => [error]
  | _ => []

/-! ## The outermost run -/

inductive Doom
  | failed (result : String)
  | thrown (error : Thrown)

/-- `Map<FlushHandler | undefined, IDomainEvent[]>`, in insertion order. -/
abbrev EventsByFlushHandler := List (Option FlushHandler × List DomainEvent)

structure OutermostRun where
  doom : Option Doom
  pending : EventsByFlushHandler

structure Session where
  nextTx : Transaction
  outermostRuns : Transaction → Option OutermostRun
  journal : List Entry

def Session.setRun (s : Session) (tx : Transaction) (o : OutermostRun) : Session :=
  { s with outermostRuns := fun id => if id = tx then some o else s.outermostRuns id }

/-- `doom(outermostRuns.get(tx), cause)`: the first cause stays. -/
def doom (s : Session) (tx : Transaction) (cause : Doom) : Session :=
  match s.outermostRuns tx with
  | none => s
  | some o => if o.doom.isSome then s else s.setRun tx { o with doom := some cause }

/-- `pending.set(key, [...(pending.get(key) ?? []), ...drained])`. -/
def append (key : Option FlushHandler) (drained : List DomainEvent) :
    EventsByFlushHandler → EventsByFlushHandler
  | [] => [(key, drained)]
  | (k, events) :: rest =>
      if k = key then (k, events ++ drained) :: rest
      else (k, events) :: append key drained rest

def collect (service : TransactionService) (pending : EventsByFlushHandler)
    (drained : List DomainEvent) : EventsByFlushHandler :=
  if drained.length = 0 then pending else append service.flushHandler drained pending

/-- What `runNested` does once its work has settled with `drained` in its
scope. -/
def runNested (service : TransactionService) (tx : Transaction)
    (drained : List DomainEvent) (settled : Settled) (s : Session) : Session × Settled :=
  match settled with
  | .failedResult result =>
      (doom s tx (.failed result), .threw (.failedResultRollback result))
  | .value =>
      match s.outermostRuns tx with
      | none => (s, .value)
      | some o => (s.setRun tx { o with pending := collect service o.pending drained }, .value)
  | .threw (.failedResultRollback result) => (s, .threw (.failedResultRollback result))
  | .threw error => (doom s tx (.thrown error), .threw error)

/-- What `savepoint` does once its work has settled; `before` is the session it
began in. -/
def leaveSavepoint (before : Session) (settled : Settled) (s : Session) : Session :=
  match settled with
  | .threw _ => { s with journal := before.journal }
  | _ => s

/-- Work in a scope of `tx` that holds `events`. -/
def Work.eval (tx : Transaction) (events : List DomainEvent) (caught : List Thrown)
    (s : Session) : Work → Session × List DomainEvent × Settled
  | .done ends => (s, events, ends.settle caught)
  | .add added rest =>
      rest.eval tx (events ++ added) caught
        { s with journal := s.journal ++ added.map .wrote }
  | .run service work rest =>
      let (s₁, drained, inner) := work.eval tx [] [] s
      let (s₂, settled) := runNested service tx drained inner s₁
      rest.eval tx events (settled.thrown ++ caught) s₂
  | .savepoint work rest =>
      let (s₁, _, settled) := work.eval s.nextTx [] [] { s with nextTx := s.nextTx + 1 }
      rest.eval tx events (settled.thrown ++ caught) (leaveSavepoint s settled s₁)

/-! ## Committing -/

/-- The flush entries, and the error that ended the flush if one did. -/
def flush (flushes : FlushOutcome) : EventsByFlushHandler → List Entry × Option Thrown
  | [] => ([], none)
  | (key, events) :: rest =>
      if events.length = 0 then flush flushes rest
      else
        match key with
        | none => ([], some (.eventsWithoutOutbox events))
        | some handler =>
            match flushes handler events with
            | some message => ([], some (.error message))
            | none =>
                let (entries, error) := flush flushes rest
                (.flushed handler events :: entries, error)

/-- How the call settled, and the journal if its transaction committed. -/
structure CallOutcome where
  settled : Settled
  committed : Option (List Entry)

def complete (flushes : FlushOutcome) (service : TransactionService)
    (tx : Transaction) (s : Session) (work : Work) : Session × Settled :=
  let (s, drained, settled) := work.eval tx [] [] (s.setRun tx ⟨none, []⟩)
  match settled with
  | .threw error => (s, .threw error)
  | .failedResult result => (s, .threw (.failedResultRollback result))
  | .value =>
      match s.outermostRuns tx with
      | some ⟨some (.thrown error), _⟩ => (s, .threw error)
      | some ⟨some (.failed result), _⟩ => (s, .threw (.failedResultRollback result))
      | some ⟨none, pending⟩ =>
          let (entries, error) := flush flushes (collect service pending drained)
          ({ s with journal := s.journal ++ entries },
            match error with
            | some error => .threw error
            | none => .value)
      | none => (s, .value)

/-- `db.transaction`: a callback that throws is rolled back. -/
def transaction (s : Session) (settled : Settled) : CallOutcome :=
  match settled with
  | .threw error => ⟨.threw error, none⟩
  | settled => ⟨settled, some s.journal⟩

def noTransaction : Session := ⟨1, fun _ => none, []⟩

/-- `run` outside every transaction. -/
def openTransaction (flushes : FlushOutcome) (service : TransactionService)
    (work : Work) : CallOutcome :=
  let (s, settled) := complete flushes service 0 noTransaction work
  let out := transaction s settled
  match out.settled with
  | .threw (.failedResultRollback result) => ⟨.failedResult result, out.committed⟩
  | _ => out

/-- `savepoint` outside every transaction. -/
def openSavepoint (work : Work) : CallOutcome :=
  let (s, _, settled) := work.eval 0 [] [] noTransaction
  transaction s settled

/-- An outermost call. -/
inductive Call
  | run (service : TransactionService) (work : Work)
  | savepoint (work : Work)

def Call.outcome (flushes : FlushOutcome) : Call → CallOutcome
  | .run service work => openTransaction flushes service work
  | .savepoint work => openSavepoint work

end CleanStack.Drizzle
