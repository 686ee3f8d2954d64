import CleanStack.Events.Catalogue

/-!
# The notification map

The event types that notify somebody, with what the fan-out and the digest read
of their configuration: who the audience is, the category, whether preferences
are passed over, whether rows are grouped and the window in which a second event
is no news. Which permission an audience needs is a question for the query that
selects the recipients.
-/

namespace CleanStack.Events

inductive Audience
  | self
  | actor
  | orgAll
  | can
  | staff
  deriving DecidableEq, Repr

inductive NotificationCategory
  | security
  | org
  | billing
  | activity
  deriving DecidableEq, Repr

inductive GroupBy
  | actor
  | resource
  deriving DecidableEq, Repr

inductive DedupWindow
  | hour
  | day
  deriving DecidableEq, Repr

structure NotificationConfig where
  audience : Audience
  category : NotificationCategory
  forced : Bool
  groupBy : Option GroupBy
  dedupWindow : Option DedupWindow
  deriving DecidableEq, Repr

/-- A configuration that groups nothing and keeps no window. -/
def plainConfig (audience : Audience) (category : NotificationCategory) : NotificationConfig :=
  ⟨audience, category, false, none, none⟩

def forcedConfig (audience : Audience) (category : NotificationCategory) : NotificationConfig :=
  { plainConfig audience category with forced := true }

def APPROVAL_NOTICE : NotificationConfig := forcedConfig .staff .security

def NOTIFICATION_MAP : List (String × NotificationConfig) := [
  ("admin.approval.requested", APPROVAL_NOTICE),
  ("admin.approval.cancelled", APPROVAL_NOTICE),
  ("admin.approval.expired", APPROVAL_NOTICE),
  ("admin.approval.executed", APPROVAL_NOTICE),
  ("admin.approval.decided", APPROVAL_NOTICE),
  ("admin.approval.failed", APPROVAL_NOTICE),
  ("user.password_changed", forcedConfig .self .security),
  ("user.mfa.enabled", forcedConfig .self .security),
  ("user.mfa.disabled", forcedConfig .self .security),
  ("user.mfa.backup_code_used", forcedConfig .self .security),
  ("user.passkey.added", forcedConfig .self .security),
  ("user.passkey.removed", forcedConfig .self .security),
  ("user.email.change_requested", forcedConfig .self .security),
  ("user.export.completed", plainConfig .self .activity),
  ("user.deletion.requested", forcedConfig .self .security),
  ("user.deletion.cancelled", forcedConfig .self .security),
  ("org.member.joined", { plainConfig .can .org with groupBy := some .resource }),
  ("org.member.removed", plainConfig .can .org),
  ("org.member.role_changed", plainConfig .self .org),
  ("org.member.invited", plainConfig .can .org),
  ("billing.payment.failed", forcedConfig .can .billing),
  ("billing.subscription.created", plainConfig .can .billing),
  ("billing.subscription.updated", plainConfig .can .billing),
  ("billing.subscription.cancelled", forcedConfig .can .billing),
  ("billing.quota.exceeded", { plainConfig .can .billing with dedupWindow := some .day }),
  ("webhook.endpoint.disabled", plainConfig .can .activity),
  ("api_token.created", forcedConfig .self .security)]

def FORCED_EVENT_TYPES : List String :=
  (NOTIFICATION_MAP.filter fun entry => entry.2.forced).map Prod.fst

def notificationConfigOf (eventType : String) : Option NotificationConfig :=
  if isKnownEventType eventType then NOTIFICATION_MAP.lookup eventType else none

end CleanStack.Events
