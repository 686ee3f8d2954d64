import CleanStack.Admin.StaffService
import CleanStack.Auth.Totp

/-!
# Stepping up

A staff member confirms who they are with a code, and the session may then do
what asks for it, for a while. The code is consumed, the session found and the
time recorded in one transaction, which also writes `ADMIN_STEP_UP_VERIFIED`.

Attempts interleave with each other, with what else consumes codes and with the
ends of sessions. A session that is being recorded stays until the transaction
has ended, and what is recorded goes with it.

Besides its transaction and its call an attempt keeps the counter its code was
accepted for, which is written nowhere.
-/

namespace CleanStack.Admin

open CleanStack.Lib CleanStack.Auth

structure StepUpRow where
  sessionId : String
  verifiedAt : Int
  deriving DecidableEq, Repr

instance : Keyed StepUpRow String := ⟨fun r => r.sessionId⟩

def verifiedSet (verifiedAt : Int) (r : StepUpRow) : StepUpRow := { r with verifiedAt }

theorem key_verifiedSet (verifiedAt : Int) (r : StepUpRow) :
    Keyed.key (verifiedSet verifiedAt r) = Keyed.key r :=
  rfl

def recordStepUp (t : Table StepUpRow) (sessionId : String) (verifiedAt : Int) : Table StepUpRow :=
  t.upsert ⟨sessionId, verifiedAt⟩ (verifiedSet verifiedAt) (key_verifiedSet verifiedAt)

def stepUpInvalid : AppError := ⟨"ADMIN_STEP_UP_CODE_INVALID", "This code is not valid."⟩

def stepUpReplayed : AppError :=
  ⟨"ADMIN_STEP_UP_REPLAY_INVALID", "This code was already used. Wait for the next one."⟩

def stepUpNotEnrolled : AppError :=
  ⟨"ADMIN_STEP_UP_MFA_FORBIDDEN", "Turn on two-factor authentication to confirm this action."⟩

def stepUpSessionEnded : AppError :=
  ⟨"ADMIN_STEP_UP_SESSION_NOT_FOUND", "This session has ended."⟩

def stepUpRefusal : TotpOutcome → Option AppError
  | .accepted => none
  | .invalid => some stepUpInvalid
  | .replayed => some stepUpReplayed
  | .notEnrolled => some stepUpNotEnrolled

/-! ## The guard -/

structure StepUpSession where
  id : String
  impersonatedBy : Option String
  deriving DecidableEq, Repr

def expiryOf (ttlSeconds verifiedAt : Int) : Int := verifiedAt + ttlSeconds * 1000

def validUntil (ttlSeconds : Int) (t : Table StepUpRow) (sessionId : String) (now : Int) :
    Option Int :=
  ((t.find? sessionId).map fun r => expiryOf ttlSeconds r.verifiedAt).filter
    fun expiry => decide (now < expiry)

def impersonating : AppError :=
  ⟨"IMPERSONATION_ACTION_FORBIDDEN", "action unavailable while impersonating"⟩

def reauthRequired : AppError :=
  ⟨"ADMIN_REAUTH_REQUIRED", "Confirm this action with a code from your authenticator."⟩

/-- An empty name of who impersonates is no name. -/
def assertNotImpersonated (session : StepUpSession) : Except AppError Unit :=
  if session.impersonatedBy.any fun by' => by' ≠ "" then .error impersonating else .ok ()

/-- `read` is what `validUntil` answers. -/
def assertStepUp (twoFactorEnabled : Option Bool) (session : StepUpSession)
    (read : Except AppError (Option Int)) : Except AppError Unit :=
  match assertNotImpersonated session with
  | .error error => .error error
  | .ok () =>
      if twoFactorEnabled ≠ some true then .error stepUpNotEnrolled
      else
        match read with
        | .error error => .error error
        | .ok none => .error reauthRequired
        | .ok (some _) => .ok ()

/-! ## Attempts side by side -/

inductive StepUpPhase
  /-- The code has been looked up. -/
  | matched
  | accepted (counter : Int)
  | recorded (counter verifiedAt : Int)
  | verified (counter verifiedAt : Int)
  /-- Rolled back; `none` where it is for a failure. -/
  | refused (error : Option AppError)
  deriving DecidableEq, Repr

structure StepUpAttempt where
  userId : String
  sessionId : String
  ip : Option String
  readAt : Int
  transaction : Nat
  call : Nat
  phase : StepUpPhase
  deriving DecidableEq, Repr

/-- `ADMIN_STEP_UP_VERIFIED`. -/
structure StepUpVerified where
  userId : String
  validUntil : Int
  ip : Option String
  deriving DecidableEq, Repr

structure StepUpState where
  totp : TotpState
  sessions : List String
  stepUps : Table StepUpRow
  attempts : List StepUpAttempt
  verified : List StepUpVerified

inductive StepUpEvent
  /-- A transaction begins, and the code is looked up in it. -/
  | attempt (userId sessionId code : String) (ip : Option String) (rows : List TwoFactorRow)
      (now : Int)
  | consume (k : Nat)
  | record (k : Nat) (verifiedAt : Int)
  | commit (k : Nat)
  | fails (k : Nat)
  /-- A code is consumed outside of any transaction. -/
  | otherRead (rows : List TwoFactorRow) (userId code : String) (now : Int)
  | otherUpsert (call : Nat)
  | sessionBegins (sessionId : String)
  | sessionEnds (sessionId : String)

/-- An attempt that has the session locked. -/
def recordsSession (sessionId : String) (a : StepUpAttempt) : Bool :=
  match a.phase with
  | .recorded _ _ => a.sessionId = sessionId
  | _ => false

def StepUpState.setPhase (s : StepUpState) (k : Nat) (a : StepUpAttempt) (phase : StepUpPhase) :
    StepUpState :=
  { s with attempts := s.attempts.set k { a with phase } }

/-- The counter of a call that waits to be written. -/
def counterOf (totp : TotpState) (call : Nat) : Option Int :=
  totp.calls[call]?.bind fun c =>
    match c.phase with
    | .matched counter => some counter
    | .answered _ => none

def outcomeOf (totp : TotpState) (call : Nat) : Option TotpOutcome :=
  totp.calls[call]?.bind fun c =>
    match c.phase with
    | .matched _ => none
    | .answered outcome => some outcome

section Steps

variable {Secret : Type} (codes : TotpCodes Secret) (ttlSeconds : Int)

/-- The transaction of an attempt is rolled back. -/
def StepUpState.refuse (s : StepUpState) (k : Nat) (a : StepUpAttempt) (error : Option AppError) :
    Option StepUpState :=
  (totpStep codes s.totp (.rollback a.transaction)).map fun totp =>
    { s.setPhase k a (.refused error) with totp }

/-- A code that matches no counter ends its attempt at once. -/
def stepUpBegin (s : StepUpState) (userId sessionId code : String) (ip : Option String)
    (rows : List TwoFactorRow) (now : Int) : Option StepUpState :=
  let i := s.totp.transactions.length
  let call := s.totp.calls.length
  (totpStep codes s.totp .begins).bind fun begun =>
    (totpStep codes begun (.read (some i) rows userId code now)).bind fun totp =>
      let a : StepUpAttempt := ⟨userId, sessionId, ip, now, i, call, .matched⟩
      let s' : StepUpState := { s with totp, attempts := s.attempts ++ [a] }
      match (outcomeOf totp call).bind stepUpRefusal with
      | none => some s'
      | some error => s'.refuse codes s.attempts.length a (some error)

def stepUpStep (s : StepUpState) : StepUpEvent → Option StepUpState
  | .attempt userId sessionId code ip rows now =>
      stepUpBegin codes s userId sessionId code ip rows now
  | .consume k =>
      s.attempts[k]?.bind fun a =>
        match a.phase, counterOf s.totp a.call with
        | .matched, some counter =>
            (totpStep codes s.totp (.upsert a.call)).bind fun totp =>
              let s' : StepUpState := { s with totp }
              match (outcomeOf totp a.call).bind stepUpRefusal with
              | none => some (s'.setPhase k a (.accepted counter))
              | some error => s'.refuse codes k a (some error)
        | _, _ => none
  | .record k verifiedAt =>
      s.attempts[k]?.bind fun a =>
        match a.phase with
        | .accepted counter =>
            if !s.sessions.contains a.sessionId then s.refuse codes k a (some stepUpSessionEnded)
            else if s.attempts.any (recordsSession a.sessionId) then none
            else some (s.setPhase k a (.recorded counter verifiedAt))
        | _ => none
  | .commit k =>
      s.attempts[k]?.bind fun a =>
        match a.phase with
        | .recorded counter verifiedAt =>
            (totpStep codes s.totp (.commit a.transaction)).map fun totp =>
              { s.setPhase k a (.verified counter verifiedAt) with
                totp
                stepUps := recordStepUp s.stepUps a.sessionId verifiedAt
                verified := s.verified ++ [⟨a.userId, expiryOf ttlSeconds verifiedAt, a.ip⟩] }
        | _ => none
  | .fails k =>
      s.attempts[k]?.bind fun a =>
        match a.phase with
        | .verified _ _ => none
        | .refused _ => none
        | _ => s.refuse codes k a none
  | .otherRead rows userId code now =>
      (totpStep codes s.totp (.read none rows userId code now)).map fun totp => { s with totp }
  | .otherUpsert call =>
      s.totp.calls[call]?.bind fun c =>
        match c.transaction with
        | none => (totpStep codes s.totp (.upsert call)).map fun totp => { s with totp }
        | some _ => none
  | .sessionBegins sessionId =>
      if s.sessions.contains sessionId then none
      else some { s with sessions := sessionId :: s.sessions }
  | .sessionEnds sessionId =>
      if s.attempts.any (recordsSession sessionId) then none
      else some { s with
        sessions := s.sessions.filter fun id => id ≠ sessionId
        stepUps := s.stepUps.delete fun r => r.sessionId = sessionId }

end Steps

def noStepUps : StepUpState :=
  { totp := { counters := Table.empty, transactions := [], calls := [], accepted := [] }
    sessions := []
    stepUps := Table.empty
    attempts := []
    verified := [] }

end CleanStack.Admin
