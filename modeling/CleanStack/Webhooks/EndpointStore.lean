import CleanStack.Webhooks.DeliveryWorker

/-!
# The webhook endpoint table

`webhook_endpoint` and the statements of its repository that write it. Every
statement names the organization beside the id. None but `update` looks at or
sets `enabled` back to true, and `bumpFailure` and `markDisabled` write a
disabled endpoint as they write an enabled one.
-/

namespace CleanStack.Webhooks

open CleanStack.Lib CleanStack.Drizzle

structure WebhookEndpointRow extends EndpointRow where
  eventTypes : List String
  enabled : Bool
  consecutiveFailures : Nat
  firstFailedAt : Option Time
  disabledAt : Option Time

instance : Keyed WebhookEndpointRow String := ⟨fun r => r.id⟩

abbrev EndpointTable := Table WebhookEndpointRow

structure UpdateEndpointArgs where
  id : String
  organizationId : String
  url : Option String
  eventTypes : Option (List String)
  enabled : Option Bool

/-- `id = … AND organization_id = …`. -/
def ownedBy (id organizationId : String) (r : WebhookEndpointRow) : Bool :=
  r.id = id && r.organizationId = organizationId

def newEndpoint (endpoint : EndpointRow) (eventTypes : List String) (enabled : Bool) :
    WebhookEndpointRow :=
  { endpoint with
    previousSecretCipher := none
    previousSecretExpiresAt := none
    eventTypes := eventTypes
    enabled := enabled
    consecutiveFailures := 0
    firstFailedAt := none
    disabledAt := none }

def updateSet (args : UpdateEndpointArgs) (r : WebhookEndpointRow) : WebhookEndpointRow :=
  let r := { r with
    url := args.url.getD r.url
    eventTypes := args.eventTypes.getD r.eventTypes
    enabled := args.enabled.getD r.enabled }
  if args.enabled = some true then
    { r with consecutiveFailures := 0, firstFailedAt := none, disabledAt := none }
  else r

theorem updateSet_id (args : UpdateEndpointArgs) (r : WebhookEndpointRow) :
    Keyed.key (updateSet args r) = Keyed.key r := by
  unfold updateSet
  dsimp only
  split
  · rfl
  · rfl

theorem updateSet_organizationId (args : UpdateEndpointArgs) (r : WebhookEndpointRow) :
    (updateSet args r).organizationId = r.organizationId := by
  unfold updateSet
  dsimp only
  split
  · rfl
  · rfl

def updateEndpoint (t : EndpointTable) (args : UpdateEndpointArgs) : EndpointTable :=
  t.update (ownedBy args.id args.organizationId) (updateSet args) (updateSet_id args)

def rotatedSet (secretCipher previousSecretCipher : String) (previousSecretExpiresAt : Time)
    (r : WebhookEndpointRow) : WebhookEndpointRow :=
  { r with
    secretCipher := secretCipher
    previousSecretCipher := some previousSecretCipher
    previousSecretExpiresAt := some previousSecretExpiresAt }

def applySecretRotation (t : EndpointTable) (id organizationId secretCipher
    previousSecretCipher : String) (previousSecretExpiresAt : Time) : EndpointTable :=
  t.update (ownedBy id organizationId)
    (rotatedSet secretCipher previousSecretCipher previousSecretExpiresAt) fun _ => rfl

def findEnabledById (t : EndpointTable) (id : String) : Option WebhookEndpointRow :=
  (t.find? id).filter fun r => r.enabled

def bumpedSet (now : Time) (r : WebhookEndpointRow) : WebhookEndpointRow :=
  { r with
    consecutiveFailures := r.consecutiveFailures + 1
    firstFailedAt := some (r.firstFailedAt.getD now) }

/-- What `bumpFailure` returns of the endpoint. -/
structure Bumped where
  consecutiveFailures : Nat
  firstFailedAt : Time

def bumpFailure (t : EndpointTable) (now : Time) (id organizationId : String) :
    EndpointTable × Option Bumped :=
  (t.update (ownedBy id organizationId) (bumpedSet now) fun _ => rfl,
    (t.returning (ownedBy id organizationId) (bumpedSet now)).head?.bind fun r =>
      r.firstFailedAt.map fun firstFailedAt => ⟨r.consecutiveFailures, firstFailedAt⟩)

def resetSet (r : WebhookEndpointRow) : WebhookEndpointRow :=
  { r with consecutiveFailures := 0, firstFailedAt := none }

def resetFailure (t : EndpointTable) (id organizationId : String) : EndpointTable :=
  t.update (ownedBy id organizationId) resetSet fun _ => rfl

def disabledSet (disabledAt : Time) (r : WebhookEndpointRow) : WebhookEndpointRow :=
  { r with enabled := false, disabledAt := some disabledAt }

def markDisabled (t : EndpointTable) (id organizationId : String) (disabledAt : Time) :
    EndpointTable :=
  t.update (ownedBy id organizationId) (disabledSet disabledAt) fun _ => rfl

/-! ## What the statements guarantee -/

variable {t : EndpointTable} {id organizationId : String}

theorem ownedBy_iff {r : WebhookEndpointRow} :
    ownedBy id organizationId r = true ↔ r.id = id ∧ r.organizationId = organizationId := by
  rw [ownedBy, Bool.and_eq_true, decide_eq_true_eq, decide_eq_true_eq]

/-- The rows of an id and an organization are the endpoint of that id, if it is
the organization's. -/
theorem returning_ownedBy (f : WebhookEndpointRow → WebhookEndpointRow) :
    t.returning (ownedBy id organizationId) f =
      (((t.find? id).filter fun r => r.organizationId = organizationId).map f).toList := by
  have hsplit : t.rows.filter (ownedBy id organizationId) =
      (t.rows.filter fun r => Keyed.key r = id).filter fun r =>
        r.organizationId = organizationId := by
    rw [List.filter_filter]
    refine List.filter_congr fun r _ => ?_
    rw [ownedBy, Bool.and_comm]
    rfl
  rw [Table.returning, hsplit, Table.filter_key]
  cases t.find? id with
  | none => rfl
  | some r =>
      by_cases horg : r.organizationId = organizationId
      · simp [horg, Option.filter]
      · simp [horg, Option.filter]

theorem bumpFailure_snd (now : Time) : (bumpFailure t now id organizationId).2 =
    ((t.find? id).filter fun r => r.organizationId = organizationId).map fun r =>
      ⟨r.consecutiveFailures + 1, r.firstFailedAt.getD now⟩ := by
  rw [bumpFailure, returning_ownedBy]
  cases (t.find? id).filter fun r => r.organizationId = organizationId with
  | none => rfl
  | some r => rfl

end CleanStack.Webhooks
