import CleanStack.Lib.Runs
import CleanStack.Webhooks.EndpointStore

/-!
# Rotating a signing secret

`rotateSecret` reads the endpoint, draws and encrypts a new secret, and writes
the row: the new secret, the one it has read as the previous one, and the date
until which that one signs along. A delivery reads the row, looks the host up and
signs with what it has read.

Rotations and deliveries of any number of endpoints interleave between these
steps. `handed` is written nowhere: the secrets the rotations have put in place,
the last one first, with the instant each was.
-/

namespace CleanStack.Webhooks

open CleanStack.Lib CleanStack.Drizzle

deriving instance DecidableEq for EndpointRow

structure RotationConfig (κ : Type) where
  platform : Platform κ
  /-- Encryption under a nonce, which is drawn for each call. -/
  encryptSecret : List Nat → String → κ → String
  masterKey : Option κ
  settings : DeliverySettings
  secretGraceHours : Nat

structure Handed where
  secret : String
  since : Time
  deriving DecidableEq

inductive RotationPhase
  | found (endpoint : WebhookEndpointRow)
  | prepared (newPlaintext newCipher previousSecretCipher : String)
      (previousSecretExpiresAt : Time)
  | returned (plaintextSecret : Option String)

structure RotationRun where
  id : String
  organizationId : String
  phase : RotationPhase

/-- A delivery that has read its endpoint, until it is over. -/
structure SigningRun where
  delivery : DeliveryRow
  endpoint : Option WebhookEndpointRow

structure RotationState where
  clock : Time
  endpoints : EndpointTable
  rotations : List RotationRun
  deliveries : List SigningRun
  handed : String → List Handed

inductive RotationEvent
  | rotate (id organizationId : String)
  | prepare (i : Nat) (nonce : List Nat) (newPlaintext : String)
  | commit (i : Nat)
  | look (delivery : DeliveryRow)
  | send (j : Nat) (lookup : Lookup) (net : Network) (durationMs : Nat)
  | wait (n : Nat)

def findById (t : EndpointTable) (id organizationId : String) : Option WebhookEndpointRow :=
  (t.find? id).filter fun r => r.organizationId = organizationId

/-- `hours` hours after an instant. -/
def graceEnd (hours : Nat) (since : Time) : Time := secondsFromNow since (3600 * hours)

def RotationState.setRotation (s : RotationState) (i : Nat) (run : RotationRun)
    (phase : RotationPhase) : RotationState :=
  { s with rotations := s.rotations.set i { run with phase } }

variable {κ : Type} (cfg : RotationConfig κ)

/-- What the row of an endpoint comes to for a delivery. -/
def deliveryOutcome (clock : Time) (delivery : DeliveryRow) (endpoint : WebhookEndpointRow)
    (lookup : Lookup) (net : Network) (durationMs : Nat) : Outcome :=
  (processDelivery cfg.platform cfg.settings cfg.masterKey
    ⟨.ok (some endpoint.toEndpointRow), lookup, net, clock, durationMs⟩ delivery).1

def rotationStep (s : RotationState) : RotationEvent → Option RotationState
  | .rotate id organizationId =>
      if cfg.masterKey.isNone then some s
      else
        match findById s.endpoints id organizationId with
        | none => some s
        | some endpoint =>
            some { s with rotations := s.rotations ++ [⟨id, organizationId, .found endpoint⟩] }
  | .prepare i nonce newPlaintext =>
      s.rotations[i]?.bind fun run =>
        match run.phase, cfg.masterKey with
        | .found endpoint, some masterKey =>
            let subKey := cfg.platform.deriveOrgSubKey masterKey run.organizationId
            some (s.setRotation i run (.prepared newPlaintext
              (cfg.encryptSecret nonce newPlaintext subKey) endpoint.secretCipher
              (graceEnd cfg.secretGraceHours s.clock)))
        | _, _ => none
  | .commit i =>
      s.rotations[i]?.bind fun run =>
        match run.phase with
        | .prepared newPlaintext newCipher previousSecretCipher previousSecretExpiresAt =>
            match findById s.endpoints run.id run.organizationId with
            | none => some (s.setRotation i run (.returned none))
            | some _ =>
                some { s.setRotation i run (.returned (some newPlaintext)) with
                  endpoints := applySecretRotation s.endpoints run.id run.organizationId newCipher
                    previousSecretCipher previousSecretExpiresAt
                  handed := fun id =>
                    if id = run.id then ⟨newPlaintext, s.clock⟩ :: s.handed id
                    else s.handed id }
        | _ => none
  | .look delivery =>
      some { s with
        deliveries := s.deliveries ++
          [⟨delivery, findEnabledById s.endpoints delivery.endpointId⟩] }
  | .send j _ _ _ =>
      s.deliveries[j]?.map fun run =>
        { s with deliveries := s.deliveries.set j { run with endpoint := none } }
  | .wait n => some { s with clock := s.clock + n }

theorem findById_eq_some {t : EndpointTable} {id organizationId : String}
    {r : WebhookEndpointRow} (h : findById t id organizationId = some r) :
    t.find? id = some r ∧ r.organizationId = organizationId := by
  obtain ⟨hfind, horg⟩ := Option.filter_eq_some_iff.1 h
  exact ⟨hfind, of_decide_eq_true horg⟩

end CleanStack.Webhooks
