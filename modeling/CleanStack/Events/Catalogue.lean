/-!
# The event catalogue

Every event type the application knows, in the order of `EventTypes`, with what
`RETENTION_MAP` says about its audit row and what `VISIBILITY` says about who
may subscribe to it. Both maps are total on the known types, so one table holds
them; an event type that is not in it is not known.
-/

namespace CleanStack.Events

inductive RetentionPolicy
  | operational
  | compliance
  | none
  deriving DecidableEq, Repr

def RetentionPolicy.text : RetentionPolicy → String
  | operational => "operational"
  | compliance => "compliance"
  | none => "none"

inductive Visibility
  | «public»
  | internal
  deriving DecidableEq, Repr

structure EventTypeEntry where
  eventType : String
  retention : RetentionPolicy
  visibility : Visibility

def EventTypes : List EventTypeEntry := [
  ⟨"user.created", .compliance, .«public»⟩,
  ⟨"user.signed_in", .compliance, .«public»⟩,
  ⟨"user.signed_out", .compliance, .«public»⟩,
  ⟨"user.email_verified", .compliance, .«public»⟩,
  ⟨"user.password_reset.requested", .compliance, .internal⟩,
  ⟨"user.password_changed", .compliance, .internal⟩,
  ⟨"user.magic_link.requested", .compliance, .internal⟩,
  ⟨"user.mfa.enabled", .compliance, .internal⟩,
  ⟨"user.mfa.disabled", .compliance, .internal⟩,
  ⟨"user.mfa.backup_codes_regenerated", .compliance, .internal⟩,
  ⟨"user.mfa.backup_code_used", .compliance, .internal⟩,
  ⟨"user.passkey.added", .compliance, .internal⟩,
  ⟨"user.passkey.removed", .compliance, .internal⟩,
  ⟨"user.account.linked", .compliance, .internal⟩,
  ⟨"user.account.unlinked", .compliance, .internal⟩,
  ⟨"user.deletion.requested", .compliance, .«public»⟩,
  ⟨"user.deletion.cancelled", .compliance, .«public»⟩,
  ⟨"user.deleted", .compliance, .«public»⟩,
  ⟨"user.profile.updated", .compliance, .«public»⟩,
  ⟨"user.email.change_requested", .compliance, .internal⟩,
  ⟨"user.export.requested", .compliance, .internal⟩,
  ⟨"user.export.completed", .compliance, .internal⟩,
  ⟨"user.locale.changed", .operational, .«public»⟩,
  ⟨"org.created", .compliance, .«public»⟩,
  ⟨"org.updated", .compliance, .«public»⟩,
  ⟨"org.deleted", .compliance, .«public»⟩,
  ⟨"org.member.invited", .compliance, .«public»⟩,
  ⟨"org.member.joined", .compliance, .«public»⟩,
  ⟨"org.invitation.cancelled", .compliance, .«public»⟩,
  ⟨"org.member.removed", .compliance, .«public»⟩,
  ⟨"org.member.role_changed", .compliance, .«public»⟩,
  ⟨"upload.requested", .compliance, .«public»⟩,
  ⟨"upload.confirmed", .compliance, .«public»⟩,
  ⟨"upload.deleted", .compliance, .«public»⟩,
  ⟨"webhook.endpoint.created", .compliance, .internal⟩,
  ⟨"webhook.endpoint.updated", .compliance, .internal⟩,
  ⟨"webhook.endpoint.deleted", .compliance, .internal⟩,
  ⟨"webhook.test", .operational, .internal⟩,
  ⟨"webhook.endpoint.secret_rotated", .compliance, .internal⟩,
  ⟨"webhook.endpoint.disabled", .operational, .internal⟩,
  ⟨"webhook.delivery.exhausted", .operational, .internal⟩,
  ⟨"webhook.delivery.replayed", .operational, .internal⟩,
  ⟨"api_token.created", .compliance, .«public»⟩,
  ⟨"api_token.revoked", .compliance, .«public»⟩,
  ⟨"api_token.used", .operational, .internal⟩,
  ⟨"user.policy.accepted", .compliance, .«public»⟩,
  ⟨"user.cookie_consent.granted", .compliance, .«public»⟩,
  ⟨"user.cookie_consent.withdrawn", .compliance, .«public»⟩,
  ⟨"user.cookie_consent.linked", .compliance, .internal⟩,
  ⟨"security.rate_limit.exceeded", .operational, .internal⟩,
  ⟨"security.csp.violation", .operational, .internal⟩,
  ⟨"security.csrf.rejected", .operational, .internal⟩,
  ⟨"security.password.breached", .operational, .internal⟩,
  ⟨"security.signup.rejected", .operational, .internal⟩,
  ⟨"security.operator.audit_accessed", .compliance, .internal⟩,
  ⟨"security.impossible_travel.detected", .operational, .internal⟩,
  ⟨"security.geo.denied", .operational, .internal⟩,
  ⟨"billing.subscription.created", .compliance, .«public»⟩,
  ⟨"billing.subscription.updated", .compliance, .«public»⟩,
  ⟨"billing.subscription.cancelled", .compliance, .«public»⟩,
  ⟨"billing.payment.failed", .compliance, .«public»⟩,
  ⟨"billing.quota.exceeded", .operational, .internal⟩,
  ⟨"admin.impersonation.started", .compliance, .internal⟩,
  ⟨"admin.impersonation.stopped", .compliance, .internal⟩,
  ⟨"admin.user.banned", .compliance, .internal⟩,
  ⟨"admin.user.unbanned", .compliance, .internal⟩,
  ⟨"admin.user.password_reset", .compliance, .internal⟩,
  ⟨"admin.user.sessions_revoked", .compliance, .internal⟩,
  ⟨"admin.staff.added", .compliance, .internal⟩,
  ⟨"admin.staff.role_changed", .compliance, .internal⟩,
  ⟨"admin.staff.revoked", .compliance, .internal⟩,
  ⟨"admin.staff.override_set", .compliance, .internal⟩,
  ⟨"admin.staff.override_revoked", .compliance, .internal⟩,
  ⟨"admin.ops.outbox_requeued", .compliance, .internal⟩,
  ⟨"admin.ops.stripe_event_replayed", .compliance, .internal⟩,
  ⟨"admin.plan_override.set", .compliance, .internal⟩,
  ⟨"admin.plan_override.revoked", .compliance, .internal⟩,
  ⟨"admin.note.added", .compliance, .internal⟩,
  ⟨"admin.view.saved", .compliance, .internal⟩,
  ⟨"admin.view.deleted", .compliance, .internal⟩,
  ⟨"admin.step_up.verified", .compliance, .internal⟩,
  ⟨"admin.step_up.failed", .compliance, .internal⟩,
  ⟨"admin.approval.requested", .compliance, .internal⟩,
  ⟨"admin.approval.decided", .compliance, .internal⟩,
  ⟨"admin.approval.cancelled", .compliance, .internal⟩,
  ⟨"admin.approval.expired", .compliance, .internal⟩,
  ⟨"admin.approval.executed", .compliance, .internal⟩,
  ⟨"admin.approval.failed", .compliance, .internal⟩,
  ⟨"email.delivery.exhausted", .operational, .internal⟩,
  ⟨"outbox.event_dead", .operational, .internal⟩,
  ⟨"notification.preference.updated", .compliance, .internal⟩,
  ⟨"notification.org_preference.updated", .compliance, .internal⟩,
  ⟨"notification.read", .operational, .internal⟩,
  ⟨"sso.provider.registered", .compliance, .internal⟩,
  ⟨"sso.provider.updated", .compliance, .internal⟩,
  ⟨"sso.provider.deleted", .compliance, .internal⟩,
  ⟨"sso.domain.verified", .compliance, .internal⟩,
  ⟨"sso.enforcement.changed", .compliance, .internal⟩,
  ⟨"sso.login.success", .compliance, .«public»⟩,
  ⟨"sso.login.failure", .compliance, .«public»⟩,
  ⟨"scim.connection.created", .compliance, .internal⟩,
  ⟨"scim.connection.deleted", .compliance, .internal⟩,
  ⟨"scim.connection.token_rotated", .compliance, .internal⟩,
  ⟨"scim.user.created", .compliance, .«public»⟩,
  ⟨"scim.user.updated", .compliance, .«public»⟩,
  ⟨"scim.user.deactivated", .compliance, .«public»⟩,
  ⟨"scim.user.deprovisioned", .compliance, .«public»⟩]

def entryOf (eventType : String) : Option EventTypeEntry :=
  EventTypes.find? fun e => e.eventType = eventType

def isKnownEventType (value : String) : Bool := (entryOf value).isSome

def retentionFor (eventType : String) : RetentionPolicy :=
  match entryOf eventType with
  | none => .none
  | some e => e.retention

/-- Only asked of a known event type. -/
def isPublicEvent (eventType : String) : Bool :=
  match entryOf eventType with
  | none => false
  | some e => e.visibility = .«public»

/-! ## Subscriptions -/

/-- What stands before the first dot. -/
def eventGroupOf (eventType : String) : String :=
  String.ofList (eventType.toList.takeWhile fun c => c ≠ '.')

def matchesSubscription (eventType : String) (subscriptions : List String) : Bool :=
  isPublicEvent eventType &&
    (subscriptions.contains "*" || subscriptions.contains eventType ||
      subscriptions.contains (eventGroupOf eventType ++ ".*"))

end CleanStack.Events
