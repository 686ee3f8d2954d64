import CleanStack.Drizzle.Queues

/-!
# Lease fencing over all queues

The three queues make the moves `Fencing.Step` lists and no others: that is
`outboxStep_moves`, `emailStep_moves` and `webhookStep_moves`, one case per
statement. The invariant of the library then holds along every run, and the
fencing guarantees are read off it.

The one statement outside the claim cycle is `requeueDead`. It may bring a
dead row forward, but only a row due later than a lease taken now would end.
A row under a live lease is due when that lease ends, so it is out of reach.
-/

namespace CleanStack.Drizzle

open CleanStack.Lib CleanStack.Lib.Fencing Keyed Fencing.Leasable

section Moves

variable {ρ : Type} [LeaseColumns ρ] {lease : Nat} {isOpen : ρ → Bool} {s : State ρ}

/-- The rows a settlement reaches are the ones its `WHERE` clause selects. -/
theorem reached_eq {cs : List RowClaim} (hcs : allHeld s.ledger cs = true) (r : ρ) :
    reached isOpen (fun c => decide (c ∈ cs)) s.ledger r =
      ((cs.map leaseOf).any (fun l => leasedBy l r) && isOpen r) := by
  rw [reached_of_held (allHeld_iff.1 hcs)]
  simp only [List.any_map, Function.comp_def, leasedBy_leaseOf]

theorem claim_moves {leaseSeconds : Nat} {picked : ρ → Bool} {rows : List ρ}
    (hperm : rows.Perm (s.table.returning picked (claimedSet s.clock leaseSeconds)))
    (hdue : ∀ r ∈ s.table.rows, picked r = true →
      ∀ d, dueAt r = some d → d ≤ s.clock) :
    Step (second * leaseSeconds) isOpen s
      { s with
        table := s.table.update picked (claimedSet s.clock leaseSeconds)
          (key_claimedSet s.clock leaseSeconds)
        ledger := recorded s leaseSeconds rows } :=
  Step.claim picked _ (key_claimedSet s.clock leaseSeconds) s.ledger.length rows hperm
    hdue (counter_claimedSet s.clock leaseSeconds) (dueAt_claimedSet s.clock leaseSeconds)

theorem settle_moves {cs : List RowClaim} (hcs : allHeld s.ledger cs = true)
    {p : ρ → Bool} (hp : ∀ r, p r = ((cs.map leaseOf).any (fun l => leasedBy l r) &&
      isOpen r)) (f : ρ → ρ) (hkey : ∀ r, key (f r) = key r)
    (hcounter : ∀ r, counter (f r) = counter r) :
    Step lease isOpen s
      { s with table := s.table.update p f hkey, ledger := ended isOpen s cs .settled } := by
  have hp' : p = reached isOpen (fun c => decide (c ∈ cs)) s.ledger :=
    funext fun r => (hp r).trans (reached_eq hcs r).symm
  subst hp'
  exact Step.settle _ f hkey hcounter

theorem release_moves {cs : List RowClaim} (hcs : allHeld s.ledger cs = true)
    {p : ρ → Bool} (hp : ∀ r, p r = ((cs.map leaseOf).any (fun l => leasedBy l r) &&
      isOpen r)) (f : ρ → ρ) (hkey : ∀ r, key (f r) = key r)
    (hcounter : ∀ r, counter (f r) = counter r - 1) :
    Step lease isOpen s
      { s with table := s.table.update p f hkey, ledger := ended isOpen s cs .released } := by
  have hp' : p = reached isOpen (fun c => decide (c ∈ cs)) s.ledger :=
    funext fun r => (hp r).trans (reached_eq hcs r).symm
  subst hp'
  exact Step.release _ f hkey hcounter

theorem touch_moves (p : ρ → Bool) (f : ρ → ρ) (hkey : ∀ r, key (f r) = key r)
    (hcounter : ∀ r, counter (f r) = counter r)
    (hdue : ∀ r, p r = true → dueAt (f r) = dueAt r ∨
      ∃ d, dueAt r = some d ∧ s.clock + lease < d) :
    Step lease isOpen s { s with table := s.table.update p f hkey } :=
  Step.touch p f hkey hcounter hdue

/-- A statement whose `WHERE` clause is the lease condition writes only where
one of its claims leases the row. -/
theorem leased_of_where {cs : List RowClaim} {p : ρ → Bool}
    (hp : ∀ r, p r = ((cs.map leaseOf).any (fun l => leasedBy l r) && isOpen r)) :
    ∀ r, p r = true → ∃ c ∈ cs, leases c r = true := by
  intro r hr
  rw [hp r, Bool.and_eq_true, List.any_map, List.any_eq_true] at hr
  obtain ⟨⟨c, hc, hl⟩, -⟩ := hr
  exact ⟨c, hc, (leasedBy_leaseOf c r).symm.trans hl⟩

/-- A statement written under the held claims `cs`. -/
def WritesUnder (isOpen : ρ → Bool) (s t : State ρ) (cs : List RowClaim) : Prop :=
  allHeld s.ledger cs = true ∧ ∃ p : ρ → Bool,
    (∀ r, p r = ((cs.map leaseOf).any (fun l => leasedBy l r) && isOpen r)) ∧
      ∃ (f : ρ → ρ) (hkey : ∀ r, key (f r) = key r), t.table = s.table.update p f hkey

theorem WritesUnder.fenced {t : State ρ} {cs : List RowClaim} (hi : Inv lease s)
    (h : WritesUnder isOpen s t cs) : WritesFenced s t cs := by
  obtain ⟨hcs, p, hp, f, hkey, ht⟩ := h
  exact hi.writesFenced (allHeld_iff.1 hcs) (leased_of_where hp) hkey ht

end Moves

/-! ## outbox_event -/

theorem outbox_where (c : RowClaim) (r : Outbox.OutboxRow) :
    Outbox.leased (leaseOf c) r =
      (([c].map leaseOf).any (fun l => leasedBy l r) && Outbox.undispatched r) := by
  simp [Outbox.leased]

theorem outboxStep_moves {leaseSeconds : Nat} {s t : State Outbox.OutboxRow}
    {e : OutboxEvent} (h : outboxStep leaseSeconds s e = some t) :
    Step (second * leaseSeconds) Outbox.undispatched s t := by
  cases e with
  | claim locked limit eventTypes =>
      cases h
      exact claim_moves (orderBy_perm _ _) fun r hr hp d hd =>
        Outbox.claimPicked_dueAt hr hp hd
  | markDelivered c deliveries =>
      simp only [outboxStep] at h
      split at h
      · next hcs =>
          cases h
          exact settle_moves hcs (outbox_where c)
            (Outbox.deliveredSet s.clock deliveries) (fun _ => rfl) fun _ => rfl
      · cases h
  | markFailed c failure =>
      simp only [outboxStep] at h
      split at h
      · next hcs =>
          cases h
          exact settle_moves hcs (outbox_where c)
            (Outbox.failedSet s.clock failure) (fun _ => rfl) fun _ => rfl
      · cases h
  | release c =>
      simp only [outboxStep] at h
      split at h
      · next hcs =>
          cases h
          exact release_moves hcs (outbox_where c) (releasedSet s.clock)
            (key_releasedSet s.clock) (counter_releasedSet s.clock)
      · cases h
  | requeueDead ids =>
      cases h
      refine touch_moves _ (fun r : Outbox.OutboxRow => { r with nextAttemptAt := some s.clock })
        (fun _ => rfl) (fun _ => rfl) fun r hr => .inr ?_
      simp only [Outbox.requeuable, Bool.and_eq_true, Option.any_eq_true] at hr
      obtain ⟨-, d, hd, hfar⟩ := hr
      rw [decide_eq_true_eq, secondsFromNow_eq] at hfar
      exact ⟨d, hd, hfar⟩
  | enqueue r =>
      obtain ⟨table, hins, rfl⟩ := Option.map_eq_some_iff.1 h
      exact Step.enqueue r table hins
  | wait n =>
      cases h
      exact Step.tick n

theorem outbox_inv {leaseSeconds : Nat} {t : Outbox.OutboxTable} {now : Time}
    {es : List OutboxEvent} {s : State Outbox.OutboxRow}
    (h : exec (outboxStep leaseSeconds) ⟨now, t, []⟩ es = some s) :
    Inv (second * leaseSeconds) s :=
  runs_inv (fun _ _ _ hi hs => hi.step (outboxStep_moves hs)) (Inv.init rfl) h

theorem outboxStep_writes {leaseSeconds : Nat} {s t : State Outbox.OutboxRow}
    {e : OutboxEvent} (h : outboxStep leaseSeconds s e = some t) {cs : List RowClaim}
    (he : e.writers = some cs) : WritesUnder Outbox.undispatched s t cs := by
  cases e with
  | markDelivered c deliveries =>
      cases he
      simp only [outboxStep] at h
      split at h
      · next hcs =>
          cases h
          exact ⟨hcs, _, outbox_where c, Outbox.deliveredSet s.clock deliveries,
            fun _ => rfl, rfl⟩
      · cases h
  | markFailed c failure =>
      cases he
      simp only [outboxStep] at h
      split at h
      · next hcs =>
          cases h
          exact ⟨hcs, _, outbox_where c, Outbox.failedSet s.clock failure,
            fun _ => rfl, rfl⟩
      · cases h
  | release c =>
      cases he
      simp only [outboxStep] at h
      split at h
      · next hcs =>
          cases h
          exact ⟨hcs, _, outbox_where c, releasedSet s.clock,
            key_releasedSet s.clock, rfl⟩
      · cases h
  | claim _ _ _ | requeueDead _ | enqueue _ | wait _ => cases he

/-- A row under a live lease is not requeued. -/
theorem requeueDead_spares_leased {leaseSeconds : Nat} {s t : State Outbox.OutboxRow}
    (hi : Inv (second * leaseSeconds) s) {ids : List String}
    (h : outboxStep leaseSeconds s (.requeueDead ids) = some t) {c : RowClaim}
    (hc : c ∈ s.ledger) (hheld : c.fate = .held) (hlive : s.clock < c.expires) :
    t.table.find? c.row = s.table.find? c.row := by
  cases h
  obtain ⟨r, hr, hk⟩ := hi.known c hc
  have hfind : s.table.find? c.row = some r := Table.find?_eq_some.2 ⟨hr, hk⟩
  obtain ⟨d, hd, -, hbound⟩ := hi.not_due hr hc hk.symm hheld hlive
  have hnot : Outbox.requeuable s.clock ids leaseSeconds r = false := by
    have hd : r.nextAttemptAt = some d := hd
    have hfar : ¬ secondsFromNow s.clock leaseSeconds < d := by
      rw [secondsFromNow_eq]
      exact Nat.not_lt.2 hbound
    simp [Outbox.requeuable, hd, hfar]
  simp [Outbox.requeueDead, Table.find?_update, hfind, hnot]

/-! ## email_message -/

theorem email_where (cs : List RowClaim) (r : Email.EmailRow) :
    Email.leasedAll (cs.map leaseOf) r =
      ((cs.map leaseOf).any (fun l => leasedBy l r) && Email.unsettled r) :=
  rfl

theorem email_claim_rows (t : Email.EmailTable) (now : Time) (locked : String → Bool)
    (req : Email.EmailClaimRequest) :
    (Email.claim t now locked req).2.map Email.EmailMessageRecord.toEmailRow =
      orderBy Email.claimedLe (t.returning (Email.claimPicked t now locked req)
        (claimedSet now req.leaseSeconds)) := by
  simp [Email.claim, Function.comp_def]

theorem emailStep_moves {leaseSeconds : Nat} {s t : State Email.EmailRow}
    {e : EmailEvent} (h : emailStep leaseSeconds s e = some t) :
    Step (second * leaseSeconds) Email.unsettled s t := by
  cases e with
  | claim locked limit deadReplayWindowHours =>
      cases h
      refine claim_moves ?_ fun r hr hp d hd => Email.claimPicked_dueAt hr hp hd
      exact (email_claim_rows ..).symm ▸ orderBy_perm _ _
  | assignBatch cs batchKey =>
      simp only [emailStep] at h
      split at h
      · cases h
        exact touch_moves _ (fun r : Email.EmailRow => { r with batchKey := some batchKey })
          (fun _ => rfl) (fun _ => rfl) fun _ _ => .inl rfl
      · cases h
  | markSent cs providerMessageIds =>
      simp only [emailStep] at h
      split at h
      · next hcs =>
          cases h
          exact settle_moves hcs (email_where cs)
            (Email.sentSet s.clock providerMessageIds) (fun _ => rfl) fun _ => rfl
      · cases h
  | markFailed cs failure =>
      simp only [emailStep] at h
      split at h
      · next hcs =>
          cases h
          exact settle_moves hcs (email_where cs) (Email.failureChanges s.clock failure)
            (Email.failureChanges_id s.clock failure)
            (Email.failureChanges_attempts s.clock failure)
      · cases h
  | release cs delaySeconds =>
      simp only [emailStep] at h
      split at h
      · next hcs =>
          cases h
          exact release_moves hcs (email_where cs)
            (Email.postponedSet s.clock delaySeconds) (fun _ => rfl) fun _ => rfl
      · cases h
  | enqueue r =>
      obtain ⟨table, hins, rfl⟩ := Option.map_eq_some_iff.1 h
      exact Step.enqueue r table hins
  | wait n =>
      cases h
      exact Step.tick n

theorem email_inv {leaseSeconds : Nat} {t : Email.EmailTable} {now : Time}
    {es : List EmailEvent} {s : State Email.EmailRow}
    (h : exec (emailStep leaseSeconds) ⟨now, t, []⟩ es = some s) :
    Inv (second * leaseSeconds) s :=
  runs_inv (fun _ _ _ hi hs => hi.step (emailStep_moves hs)) (Inv.init rfl) h

theorem emailStep_writes {leaseSeconds : Nat} {s t : State Email.EmailRow}
    {e : EmailEvent} (h : emailStep leaseSeconds s e = some t) {cs : List RowClaim}
    (he : e.writers = some cs) : WritesUnder Email.unsettled s t cs := by
  cases e with
  | assignBatch cs batchKey =>
      cases he
      simp only [emailStep] at h
      split at h
      · next hcs =>
          cases h
          exact ⟨hcs, _, email_where cs, fun r => { r with batchKey := some batchKey },
            fun _ => rfl, rfl⟩
      · cases h
  | markSent cs providerMessageIds =>
      cases he
      simp only [emailStep] at h
      split at h
      · next hcs =>
          cases h
          exact ⟨hcs, _, email_where cs, Email.sentSet s.clock providerMessageIds,
            fun _ => rfl, rfl⟩
      · cases h
  | markFailed cs failure =>
      cases he
      simp only [emailStep] at h
      split at h
      · next hcs =>
          cases h
          exact ⟨hcs, _, email_where cs, Email.failureChanges s.clock failure,
            Email.failureChanges_id s.clock failure, rfl⟩
      · cases h
  | release cs delaySeconds =>
      cases he
      simp only [emailStep] at h
      split at h
      · next hcs =>
          cases h
          exact ⟨hcs, _, email_where cs, Email.postponedSet s.clock delaySeconds,
            fun _ => rfl, rfl⟩
      · cases h
  | claim _ _ _ | enqueue _ | wait _ => cases he

/-! ## webhook_delivery -/

theorem webhook_where (c : RowClaim) (r : Webhooks.DeliveryRow) :
    Webhooks.leased (leaseOf c) r =
      (([c].map leaseOf).any (fun l => leasedBy l r) && Webhooks.unsettled r) := by
  simp [Webhooks.leased]

theorem webhookStep_moves {leaseSeconds : Nat} {s t : State Webhooks.DeliveryRow}
    {e : WebhookEvent} (h : webhookStep leaseSeconds s e = some t) :
    Step (second * leaseSeconds) Webhooks.unsettled s t := by
  cases e with
  | claim locked limit =>
      cases h
      exact claim_moves (orderBy_perm _ _) fun r hr hp d hd =>
        Webhooks.claimPicked_dueAt hr hp hd
  | markSuccess c lastResponseStatus =>
      simp only [webhookStep] at h
      split at h
      · next hcs =>
          cases h
          exact settle_moves hcs (webhook_where c)
            (Webhooks.successSet lastResponseStatus) (fun _ => rfl) fun _ => rfl
      · cases h
  | markFailed c failure =>
      simp only [webhookStep] at h
      split at h
      · next hcs =>
          cases h
          exact settle_moves hcs (webhook_where c)
            (Webhooks.failedSet s.clock failure) (fun _ => rfl) fun _ => rfl
      · cases h
  | release c =>
      simp only [webhookStep] at h
      split at h
      · next hcs =>
          cases h
          exact release_moves hcs (webhook_where c) (releasedSet s.clock)
            (key_releasedSet s.clock) (counter_releasedSet s.clock)
      · cases h
  | enqueue r =>
      obtain ⟨table, hins, rfl⟩ := Option.map_eq_some_iff.1 h
      exact Step.enqueue r table hins
  | wait n =>
      cases h
      exact Step.tick n

theorem webhook_inv {leaseSeconds : Nat} {t : Webhooks.DeliveryTable} {now : Time}
    {es : List WebhookEvent} {s : State Webhooks.DeliveryRow}
    (h : exec (webhookStep leaseSeconds) ⟨now, t, []⟩ es = some s) :
    Inv (second * leaseSeconds) s :=
  runs_inv (fun _ _ _ hi hs => hi.step (webhookStep_moves hs)) (Inv.init rfl) h

theorem webhookStep_writes {leaseSeconds : Nat} {s t : State Webhooks.DeliveryRow}
    {e : WebhookEvent} (h : webhookStep leaseSeconds s e = some t) {cs : List RowClaim}
    (he : e.writers = some cs) : WritesUnder Webhooks.unsettled s t cs := by
  cases e with
  | markSuccess c lastResponseStatus =>
      cases he
      simp only [webhookStep] at h
      split at h
      · next hcs =>
          cases h
          exact ⟨hcs, _, webhook_where c, Webhooks.successSet lastResponseStatus,
            fun _ => rfl, rfl⟩
      · cases h
  | markFailed c failure =>
      cases he
      simp only [webhookStep] at h
      split at h
      · next hcs =>
          cases h
          exact ⟨hcs, _, webhook_where c, Webhooks.failedSet s.clock failure,
            fun _ => rfl, rfl⟩
      · cases h
  | release c =>
      cases he
      simp only [webhookStep] at h
      split at h
      · next hcs =>
          cases h
          exact ⟨hcs, _, webhook_where c, releasedSet s.clock,
            key_releasedSet s.clock, rfl⟩
      · cases h
  | claim _ _ | enqueue _ | wait _ => cases he

/-! ## All three -/

/-- Held tokens of a row are distinct, and a statement written under claims
changes a row only under a claim all of whose successors were released. -/
def LeaseFenced {ρ ε : Type} [LeaseColumns ρ] (step : State ρ → ε → Option (State ρ))
    (writers : ε → Option (List RowClaim)) (s : State ρ) : Prop :=
  TokensDistinct s ∧
    ∀ e t cs, step s e = some t → writers e = some cs → WritesFenced s t cs

theorem lease_fencing (leaseSeconds : Nat) (now : Time) :
    (∀ (t : Outbox.OutboxTable) (es : List OutboxEvent) (s : State Outbox.OutboxRow),
      exec (outboxStep leaseSeconds) ⟨now, t, []⟩ es = some s →
        LeaseFenced (outboxStep leaseSeconds) OutboxEvent.writers s ∧
        ∀ ids s' c, outboxStep leaseSeconds s (.requeueDead ids) = some s' →
          c ∈ s.ledger → c.fate = .held → s.clock < c.expires →
          s'.table.find? c.row = s.table.find? c.row) ∧
    (∀ (t : Email.EmailTable) (es : List EmailEvent) (s : State Email.EmailRow),
      exec (emailStep leaseSeconds) ⟨now, t, []⟩ es = some s →
        LeaseFenced (emailStep leaseSeconds) EmailEvent.writers s) ∧
    (∀ (t : Webhooks.DeliveryTable) (es : List WebhookEvent)
      (s : State Webhooks.DeliveryRow),
      exec (webhookStep leaseSeconds) ⟨now, t, []⟩ es = some s →
        LeaseFenced (webhookStep leaseSeconds) WebhookEvent.writers s) := by
  refine ⟨?outbox, ?email, ?webhook⟩
  case outbox =>
    intro t es s h
    have hi := outbox_inv h
    exact ⟨⟨hi.tokensDistinct, fun e s' cs hs he => (outboxStep_writes hs he).fenced hi⟩,
      fun ids s' c hs hc hheld hlive => requeueDead_spares_leased hi hs hc hheld hlive⟩
  case email =>
    intro t es s h
    have hi := email_inv h
    exact ⟨hi.tokensDistinct, fun e s' cs hs he => (emailStep_writes hs he).fenced hi⟩
  case webhook =>
    intro t es s h
    have hi := webhook_inv h
    exact ⟨hi.tokensDistinct, fun e s' cs hs he => (webhookStep_writes hs he).fenced hi⟩

def orderPlaced : Outbox.OutboxRow where
  id := "e1"
  eventType := "order.placed"
  aggregateId := "o1"
  aggregateType := "order"
  organizationId := none
  payload := .null
  requestId := none
  occurredAt := 5
  dispatchedAt := none
  attempts := 0
  lastError := none
  nextAttemptAt := none
  deadAt := none
  deliveries := []

/-- A claim is given back and its value is issued a second time. -/
def reissued : List OutboxEvent :=
  [.claim (fun _ => false) 10 ["order.placed"],
    .release ⟨0, "e1", 1, 9 + second * 60, .held⟩,
    .claim (fun _ => false) 10 ["order.placed"]]

theorem lease_fencing_reissued :
    ∃ s, exec (outboxStep 60) ⟨9, ⟨[orderPlaced], List.nodup_singleton _⟩, []⟩
        reissued = some s ∧
      s.ledger.map (fun c => (c.token, c.fate)) = [(1, .released), (1, .held)] ∧
      LeaseFenced (outboxStep 60) OutboxEvent.writers s :=
  ⟨_, rfl, rfl, ((lease_fencing 60 9).1 ⟨[orderPlaced], List.nodup_singleton _⟩
    reissued _ rfl).1⟩

end CleanStack.Drizzle
