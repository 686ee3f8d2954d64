import CleanStack.Billing.Quota

/-!
# What an organization may use

The tiers and what comes with each, and the view that the rest of the program
asks for: an override in force decides over the subscription, and what names no
tier counts for nothing.

Three reads stand behind a view. `getEntitlements` shows a lesser plan where one
of them fails, and `readEntitlements` the failure.
-/

namespace CleanStack.Billing

open CleanStack.Admin

inductive Tier
  | free
  | pro
  | business
  deriving DecidableEq, Repr

inductive Feature
  | auditLog
  | api
  | sso
  deriving DecidableEq, Repr

structure Entitlement where
  rank : Nat
  features : List Feature
  maxMembers : Option Int
  quotas : QuotaKey → Option Int

def entitlements : Tier → Entitlement
  | .free =>
      { rank := 0
        features := []
        maxMembers := some 3
        quotas := fun
          | .uploads => some 10
          | .projects => some 3
          | .apiCallsPerMonth => some 1000 }
  | .pro =>
      { rank := 1
        features := [.auditLog, .api]
        maxMembers := some 20
        quotas := fun
          | .uploads => some 100
          | .projects => some 20
          | .apiCallsPerMonth => some 50000 }
  | .business =>
      { rank := 2
        features := [.auditLog, .api, .sso]
        maxMembers := none
        quotas := fun _ => none }

/-- `isTier`, with the tier it narrows to. -/
def tierOf (value : String) : Option Tier :=
  if value = "free" then some .free
  else if value = "pro" then some .pro
  else if value = "business" then some .business
  else none

structure EntitlementsView where
  tier : Tier
  status : String
  hasSubscription : Bool
  entitlement : Entitlement

structure SubscriptionRow where
  tier : String
  status : String
  deriving DecidableEq, Repr

def freeView (hasSubscription : Bool) : EntitlementsView :=
  ⟨.free, "free", hasSubscription, entitlements .free⟩

/-- `overrideTier` is the tier of the override in force, if there is one. -/
def viewOf (subscription : Option SubscriptionRow) (overrideTier : Option String)
    (hasSubscription : Bool) : EntitlementsView :=
  match overrideTier.bind tierOf with
  | some tier =>
      let status := match subscription with
        | some row => row.status
        | none => "override"
      ⟨tier, status, hasSubscription, entitlements tier⟩
  | none =>
      match subscription with
      | none => freeView hasSubscription
      | some row =>
          let tier := (tierOf row.tier).getD .free
          ⟨tier, row.status, hasSubscription, entitlements tier⟩

/-- The three reads, each of which may fail. -/
structure EntitlementSources where
  override : Except AppError (Option String)
  subscription : Except AppError (Option SubscriptionRow)
  customer : Except AppError (Option String)

def getEntitlements (sources : EntitlementSources) : EntitlementsView :=
  let hasSubscription := match sources.customer with
    | .ok customer => customer.isSome
    | .error _ => false
  match sources.subscription, sources.override with
  | .error _, _ => freeView false
  | .ok subscription, .error _ => viewOf subscription none hasSubscription
  | .ok subscription, .ok override => viewOf subscription override hasSubscription

def readEntitlements (sources : EntitlementSources) : Except AppError EntitlementsView :=
  match sources.override, sources.subscription, sources.customer with
  | .error error, _, _ => .error error
  | .ok _, .error error, _ => .error error
  | .ok _, .ok _, .error error => .error error
  | .ok override, .ok subscription, .ok customer =>
      .ok (viewOf subscription override customer.isSome)

/-- Where nothing fails, the two say the same. -/
theorem getEntitlements_of_read {sources : EntitlementSources} {view : EntitlementsView}
    (h : readEntitlements sources = .ok view) : getEntitlements sources = view := by
  obtain ⟨override, subscription, customer⟩ := sources
  cases override with
  | error => cases h
  | ok override =>
      cases subscription with
      | error => cases h
      | ok subscription =>
          cases customer with
          | error => cases h
          | ok customer =>
              cases h
              rfl

end CleanStack.Billing
