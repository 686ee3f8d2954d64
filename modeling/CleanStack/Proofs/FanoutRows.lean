import CleanStack.Fanout.Subscribers
import CleanStack.Proofs.RowOrigins

/-!
# What the fan-out leaves in the tables

A delivery that the fan-out creates stays as long as its endpoint, and while it
is there the unique index refuses a second one. Once the endpoint is gone no row
refers to it again, because its id is never given twice. So what was created is
created once, also over the life and the end of an endpoint (`Stored`).

Everything a step can do is one of eight effects (`Effect`), and each of them
leaves the tables, the runs and the outbox in order (`Sound`).
-/

namespace CleanStack.Fanout

open CleanStack.Lib CleanStack.Kit CleanStack.Drizzle CleanStack.Events CleanStack.Outbox
open CleanStack.Webhooks (DeliveryRow EndpointTable WebhookEndpointRow ownedBy ownedBy_iff
  updateSet updateSet_id updateSet_organizationId disabledSet)

/-! ## Keys

An event id has as many characters as any other and none that a directly sent
delivery's key starts with, so the key of a fanned-out delivery says which event
and which endpoint it is for.
-/

section Keys

variable {k k' x x' : String}

theorem toList_idempotencyKeyOf :
    (idempotencyKeyOf k x).toList = k.toList ++ (":".toList ++ x.toList) := by
  rw [idempotencyKeyOf, String.toList_append, String.toList_append, List.append_assoc]

theorem idempotencyKeyOf_inj (hk : isUuid k = true) (hk' : isUuid k' = true)
    (h : idempotencyKeyOf k x = idempotencyKeyOf k' x') : k = k' ∧ x = x' := by
  have hlen : k.toList.length = k'.toList.length := by
    rw [isUuid, Bool.and_eq_true, decide_eq_true_eq] at hk hk'
    rw [hk.1, hk'.1]
  have hlist := congrArg String.toList h
  rw [toList_idempotencyKeyOf, toList_idempotencyKeyOf] at hlist
  obtain ⟨hid, hrest⟩ := List.append_inj hlist hlen
  exact ⟨String.toList_inj.1 hid, String.toList_inj.1 (List.append_cancel_left hrest)⟩

theorem not_isDirectKey (hk : isUuid k = true) : isDirectKey (idempotencyKeyOf k x) = false := by
  rw [isUuid, Bool.and_eq_true, decide_eq_true_eq] at hk
  obtain ⟨hlen, hall⟩ := hk
  rw [isDirectKey, toList_idempotencyKeyOf]
  cases hchars : k.toList with
  | nil =>
      rw [hchars] at hlen
      cases hlen
  | cons c cs =>
      rw [hchars, List.all_cons, Bool.and_eq_true] at hall
      have ht : c ≠ 't' := by
        intro hc
        rw [hc] at hall
        exact absurd hall.1 (by decide)
      have hr : c ≠ 'r' := by
        intro hc
        rw [hc] at hall
        exact absurd hall.1 (by decide)
      simp [List.isPrefixOf, ht.symm, hr.symm]

end Keys

/-! ## What is stored -/

/-- A delivery as the fan-out writes it, for an event of the outbox. -/
def IsFanout (r : DeliveryRow) : Prop :=
  r.idempotencyKey = idempotencyKeyOf r.outboxEventId r.endpointId ∧
    isUuid r.outboxEventId = true

theorem IsFanout.endpointId {r : DeliveryRow} {k x : String} (h : IsFanout r)
    (hk : isUuid k = true) (hkey : deliveryKey r = idempotencyKeyOf k x) :
    r.outboxEventId = k ∧ r.endpointId = x :=
  idempotencyKeyOf_inj h.2 hk (h.1.symm.trans hkey)

/-- The deliveries beside the endpoints they are for. What the fan-out created is
in the table as long as its endpoint is, and nothing was created twice. -/
structure Stored (endpoints : EndpointTable) (endpointIds : List String)
    (deliveries : Inserts DeliveryRow) (created : List DeliveryRow) : Prop where
  known : ∀ x e, endpoints.find? x = some e → x ∈ endpointIds ∧ e.organizationId ≠ ""
  unique : Inserts.Unique deliveryKey deliveries
  pending : ∀ p ∈ deliveries.pending, IsFanout p.2 ∧
    (endpoints.find? p.2.endpointId).isSome = true
  rows : ∀ r ∈ deliveries.rows, r ∈ created ∨ isDirectKey r.idempotencyKey = true
  stays : ∀ c ∈ created, IsFanout c ∧ c.endpointId ∈ endpointIds ∧
    ((endpoints.find? c.endpointId).isSome = true → c ∈ deliveries.rows)
  once : (created.map deliveryKey).Nodup

namespace Stored

variable {endpoints : EndpointTable} {endpointIds : List String}
  {deliveries deliveries' : Inserts DeliveryRow} {created : List DeliveryRow} {i : Nat}

theorem start : Stored Table.empty [] Inserts.empty [] where
  known := fun _ _ h => nomatch h
  unique := Inserts.unique_empty
  pending := fun _ h => nomatch h
  rows := fun _ h => nomatch h
  stays := fun _ h => nomatch h
  once := List.nodup_nil

/-- A committed row under the key of an event and an endpoint was fanned out. -/
theorem of_key (h : Stored endpoints endpointIds deliveries created) {r : DeliveryRow}
    (hr : r ∈ deliveries.rows) {k x : String} (hk : isUuid k = true)
    (hkey : deliveryKey r = idempotencyKeyOf k x) :
    r ∈ created ∧ r.outboxEventId = k ∧ r.endpointId = x := by
  have hcreated : r ∈ created := by
    rcases h.rows r hr with hcreated | hdirect
    · exact hcreated
    · have hnot : isDirectKey r.idempotencyKey = false := by
        rw [show r.idempotencyKey = idempotencyKeyOf k x from hkey]
        exact not_isDirectKey hk
      rw [hnot] at hdirect
      cases hdirect
  exact ⟨hcreated, (h.stays r hcreated).1.endpointId hk hkey⟩

theorem rollback (h : Stored endpoints endpointIds deliveries created) :
    Stored endpoints endpointIds (deliveries.rollback i) created :=
  { h with
    unique := h.unique.rollback
    pending := fun p hp => h.pending p (Inserts.mem_forget.1 hp).1 }

theorem insert (h : Stored endpoints endpointIds deliveries created) {r : DeliveryRow}
    {e : WebhookEndpointRow} (hfan : IsFanout r) (he : endpoints.find? r.endpointId = some e)
    (hs : Inserts.insertOrIgnore deliveryKey deliveries i r = some deliveries') :
    Stored endpoints endpointIds deliveries' created := by
  have hunique := h.unique.insertOrIgnore hs
  rcases Inserts.insertOrIgnore_cases hs with ⟨rfl, -⟩ | ⟨rfl, -⟩
  · exact h
  · refine { h with unique := hunique, pending := fun p hp => ?_ }
    rcases List.mem_cons.1 hp with rfl | hp
    · exact ⟨hfan, by rw [he]; rfl⟩
    · exact h.pending p hp

theorem pendingOf (h : Stored endpoints endpointIds deliveries created) {r : DeliveryRow}
    (hr : r ∈ deliveries.pendingOf i) : IsFanout r ∧
      (endpoints.find? r.endpointId).isSome = true ∧
      ∀ c ∈ created, deliveryKey r ≠ deliveryKey c := by
  obtain ⟨hfan, hsome⟩ := h.pending _ (Inserts.mem_pendingOf.1 hr)
  refine ⟨hfan, hsome, fun c hc hkey => ?_⟩
  obtain ⟨hcfan, -, hstays⟩ := h.stays c hc
  -- the same key is the same endpoint, which is there, and so is the row
  have hend := hcfan.endpointId hfan.2 (hkey.symm.trans hfan.1)
  rw [← hend.2] at hsome
  exact h.unique.rows_ne (hstays hsome) hr hkey.symm

theorem commit (h : Stored endpoints endpointIds deliveries created) :
    Stored endpoints endpointIds (deliveries.commit i) (deliveries.pendingOf i ++ created) where
  known := h.known
  unique := h.unique.commit
  pending := fun p hp => h.pending p (Inserts.mem_forget.1 hp).1
  rows := by
    intro r hr
    rcases List.mem_append.1 hr with hr | hr
    · exact .inl (List.mem_append_left _ hr)
    · rcases h.rows r hr with hcreated | hdirect
      · exact .inl (List.mem_append_right _ hcreated)
      · exact .inr hdirect
  stays := by
    intro c hc
    rcases List.mem_append.1 hc with hc | hc
    · obtain ⟨hfan, hsome, -⟩ := h.pendingOf hc
      obtain ⟨e, he⟩ := Option.isSome_iff_exists.1 hsome
      exact ⟨hfan, (h.known _ _ he).1, fun _ => List.mem_append_left _ hc⟩
    · obtain ⟨hfan, hknown, hstays⟩ := h.stays c hc
      exact ⟨hfan, hknown, fun hsome => List.mem_append_right _ (hstays hsome)⟩
  once := by
    rw [List.map_append, List.nodup_append]
    refine ⟨h.unique.pendingOf i, h.once, ?_⟩
    intro a ha b hb hab
    obtain ⟨r, hr, rfl⟩ := List.mem_map.1 ha
    obtain ⟨c, hc, rfl⟩ := List.mem_map.1 hb
    exact (h.pendingOf hr).2.2 c hc hab

/-- A statement that keeps every endpoint under its id and its organization. -/
theorem updateEndpoints (h : Stored endpoints endpointIds deliveries created)
    {p : WebhookEndpointRow → Bool} {f : WebhookEndpointRow → WebhookEndpointRow}
    (hkey : ∀ r, Keyed.key (f r) = Keyed.key r)
    (horg : ∀ r, (f r).organizationId = r.organizationId) :
    Stored (endpoints.update p f hkey) endpointIds deliveries created := by
  have hsome : ∀ x, ((endpoints.update p f hkey).find? x).isSome = (endpoints.find? x).isSome := by
    intro x
    rw [Table.find?_update, Option.isSome_map]
  refine { h with known := ?_, pending := ?_, stays := ?_ }
  · intro x e he
    rw [Table.find?_update] at he
    obtain ⟨e₀, he₀, rfl⟩ := Option.map_eq_some_iff.1 he
    refine ⟨(h.known x e₀ he₀).1, ?_⟩
    split
    · rw [horg]
      exact (h.known x e₀ he₀).2
    · exact (h.known x e₀ he₀).2
  · intro p hp
    rw [hsome]
    exact h.pending p hp
  · intro c hc
    rw [hsome]
    exact h.stays c hc

theorem create (h : Stored endpoints endpointIds deliveries created) {r : WebhookEndpointRow}
    {endpoints' : EndpointTable} (hnew : r.id ∉ endpointIds) (horg : r.organizationId ≠ "")
    (hs : endpoints.insert r = some endpoints') :
    Stored endpoints' (r.id :: endpointIds) deliveries created := by
  have hfind : ∀ x, endpoints'.find? x = if r.id = x then some r else endpoints.find? x :=
    Table.find?_insert hs
  refine { h with known := ?_, pending := ?_, stays := ?_ }
  · intro x e he
    rw [hfind] at he
    split at he
    · next hx =>
        cases he
        exact ⟨hx ▸ List.mem_cons_self, horg⟩
    · exact ⟨List.mem_cons_of_mem _ (h.known x e he).1, (h.known x e he).2⟩
  · intro p hp
    obtain ⟨hfan, hsome⟩ := h.pending p hp
    refine ⟨hfan, ?_⟩
    rw [hfind]
    split
    · rfl
    · exact hsome
  · intro c hc
    obtain ⟨hfan, hknown, hstays⟩ := h.stays c hc
    refine ⟨hfan, List.mem_cons_of_mem _ hknown, fun hsome => hstays ?_⟩
    rw [hfind, if_neg] at hsome
    · exact hsome
    · intro hx
      exact hnew (hx ▸ hknown)

theorem find?_deleted {id organizationId x : String} {e : WebhookEndpointRow}
    (hany : endpoints.rows.any (ownedBy id organizationId) = true)
    (h : (endpoints.delete (ownedBy id organizationId)).find? x = some e) :
    endpoints.find? x = some e ∧ x ≠ id := by
  obtain ⟨e₀, he₀, howned⟩ := List.any_eq_true.1 hany
  rw [Table.find?_delete] at h
  obtain ⟨hfind, hnot⟩ := Option.filter_eq_some_iff.1 h
  refine ⟨hfind, fun hx => ?_⟩
  -- the endpoint of the id is the one that is deleted
  have hfind₀ : endpoints.find? id = some e₀ :=
    Table.find?_eq_some.2 ⟨he₀, (ownedBy_iff.1 howned).1⟩
  rw [hx, hfind₀] at hfind
  cases hfind
  rw [howned] at hnot
  cases hnot

/-- An endpoint goes with its deliveries, once no open transaction refers to it. -/
theorem delete (h : Stored endpoints endpointIds deliveries created) {id organizationId : String}
    (hfree : ∀ p ∈ deliveries.pending, p.2.endpointId ≠ id)
    (hany : endpoints.rows.any (ownedBy id organizationId) = true) :
    Stored (endpoints.delete (ownedBy id organizationId)) endpointIds
      (deliveries.delete fun r => r.endpointId = id) created := by
  refine ⟨fun x e he => h.known x e (find?_deleted hany he).1, h.unique.delete _, ?_, ?_, ?_,
    h.once⟩
  · intro p hp
    obtain ⟨hfan, hsome⟩ := h.pending p hp
    refine ⟨hfan, ?_⟩
    obtain ⟨e, he⟩ := Option.isSome_iff_exists.1 hsome
    rw [Table.find?_delete, he, Option.filter_some, if_pos]
    · rfl
    · have hne : e.id ≠ id := by
        rw [show e.id = p.2.endpointId from (Table.find?_eq_some.1 he).2]
        exact hfree p hp
      simp [ownedBy, hne]
  · intro r hr
    exact h.rows r (List.mem_filter.1 hr).1
  · intro c hc
    obtain ⟨hfan, hknown, hstays⟩ := h.stays c hc
    refine ⟨hfan, hknown, fun hsome => ?_⟩
    obtain ⟨e, he⟩ := Option.isSome_iff_exists.1 hsome
    obtain ⟨hbefore, hne⟩ := find?_deleted hany he
    refine List.mem_filter.2 ⟨hstays (by rw [hbefore]; rfl), ?_⟩
    simp [hne]

theorem direct (h : Stored endpoints endpointIds deliveries created) {r : DeliveryRow}
    (hdirect : isDirectKey r.idempotencyKey = true)
    (hs : Inserts.insertNew deliveryKey deliveries r = some deliveries') :
    Stored endpoints endpointIds deliveries' created := by
  have hunique := h.unique.insertNew hs
  obtain ⟨rfl, -⟩ := Inserts.insertNew_cases hs
  refine { h with unique := hunique, rows := ?_, stays := ?_ }
  · intro r' hr'
    rcases List.mem_cons.1 hr' with rfl | hr'
    · exact .inr hdirect
    · exact h.rows r' hr'
  · intro c hc
    obtain ⟨hfan, hknown, hstays⟩ := h.stays c hc
    exact ⟨hfan, hknown, fun hsome => List.mem_cons_of_mem _ (hstays hsome)⟩

end Stored

/-! ## What a step does -/

/-- What a step that acts on a run of `webhook-fanout` makes of its phase and of
the deliveries. -/
inductive Acts (s : FanoutState) (i : Nat) (run : Run DeliveryRow) :
    RunPhase DeliveryRow → Inserts DeliveryRow → List DeliveryRow → Prop
  | enter (ids : String → String) (hphase : run.phase = .entered) :
      Acts s i run (enterWebhook s.endpoints s.relay.clock ids run.record) s.deliveries s.created
  | put {r : DeliveryRow} {todo : List DeliveryRow} {e : WebhookEndpointRow}
      {deliveries : Inserts DeliveryRow} (hphase : run.phase = .inserting (r :: todo))
      (he : s.endpoints.find? r.endpointId = some e)
      (hs : Inserts.insertOrIgnore deliveryKey s.deliveries i r = some deliveries) :
      Acts s i run (.inserting todo) deliveries s.created
  | commit (hphase : run.phase = .inserting []) :
      Acts s i run .returned (s.deliveries.commit i) (s.deliveries.pendingOf i ++ s.created)
  | fail : Acts s i run .thrown (s.deliveries.rollback i) s.created

/-- Everything a step can do. -/
inductive Effect (scrubText : String → String) (relays : Nat → Relay) (s : FanoutState) :
    FanoutState → Prop
  | relay {e : RelayEvent} {relay : RelayState} (hallowed : allowed relays s e = true)
      (hs : relayStep scrubText relays s.relay e = some relay) :
      Effect scrubText relays s { s with
        relay := relay
        webhookRuns := s.webhookRuns ++ begun relays s WEBHOOK_FANOUT e
        notificationRuns := s.notificationRuns ++ begun relays s NOTIFICATION_FANOUT e }
  | webhook {i : Nat} {run : Run DeliveryRow} {phase : RunPhase DeliveryRow}
      {deliveries : Inserts DeliveryRow} {created : List DeliveryRow}
      (hrun : s.webhookRuns[i]? = some run) (hacts : Acts s i run phase deliveries created) :
      Effect scrubText relays s { s.setWebhook i run phase with deliveries, created }
  | notification (runs : List (Run NotificationRow)) {notifications : Inserts NotificationRow}
      (hkeeps : Inserts.Unique notificationKey s.notifications →
        Inserts.Unique notificationKey notifications) :
      Effect scrubText relays s { s with notificationRuns := runs, notifications }
  | create {r : WebhookEndpointRow} {endpoints : EndpointTable} (hnew : r.id ∉ s.endpointIds)
      (horg : r.organizationId ≠ "") (hs : s.endpoints.insert r = some endpoints) :
      Effect scrubText relays s { s with endpoints, endpointIds := r.id :: s.endpointIds }
  | update {p : WebhookEndpointRow → Bool} (f : WebhookEndpointRow → WebhookEndpointRow)
      (hkey : ∀ r, Keyed.key (f r) = Keyed.key r)
      (horg : ∀ r, (f r).organizationId = r.organizationId) :
      Effect scrubText relays s { s with endpoints := s.endpoints.update p f hkey }
  | delete {id organizationId : String}
      (hfree : ∀ p ∈ s.deliveries.pending, p.2.endpointId ≠ id)
      (hany : s.endpoints.rows.any (ownedBy id organizationId) = true) :
      Effect scrubText relays s { s with
        endpoints := s.endpoints.delete (ownedBy id organizationId)
        deliveries := s.deliveries.delete fun r => r.endpointId = id }
  | direct {r : DeliveryRow} {deliveries : Inserts DeliveryRow}
      (hdirect : isDirectKey r.idempotencyKey = true)
      (hs : Inserts.insertNew deliveryKey s.deliveries r = some deliveries) :
      Effect scrubText relays s { s with deliveries }
  | nothing : Effect scrubText relays s s

section Step

variable {scrubText : String → String} {relays : Nat → Relay} {s t : FanoutState}
  {e : FanoutEvent}

theorem relay_eq_some {e : RelayEvent} (h : fanoutStep scrubText relays s (.relay e) = some t) :
    allowed relays s e = true ∧ ∃ relay, relayStep scrubText relays s.relay e = some relay ∧
      t = { s with
        relay := relay
        webhookRuns := s.webhookRuns ++ begun relays s WEBHOOK_FANOUT e
        notificationRuns := s.notificationRuns ++ begun relays s NOTIFICATION_FANOUT e } := by
  simp only [fanoutStep, relayEvent] at h
  split at h
  · next hallowed =>
      obtain ⟨relay, hs, rfl⟩ := Option.map_eq_some_iff.1 h
      exact ⟨hallowed, relay, hs, rfl⟩
  · cases h

theorem insertDelivery_effect {i : Nat} {run : Run DeliveryRow}
    (hrun : s.webhookRuns[i]? = some run) (h : insertDelivery s i run = some t) :
    Effect scrubText relays s t := by
  unfold insertDelivery at h
  split at h
  · next r todo hphase =>
      split at h
      · cases h
        exact .webhook hrun .fail
      · next e he =>
          obtain ⟨deliveries, hs, rfl⟩ := Option.map_eq_some_iff.1 h
          exact .webhook hrun (.put hphase he hs)
  · cases h

theorem insertNotification_effect {i : Nat} {run : Run NotificationRow}
    (h : insertNotification s i run = some t) : Effect scrubText relays s t := by
  unfold insertNotification at h
  split at h
  · obtain ⟨notifications, hs, rfl⟩ := Option.map_eq_some_iff.1 h
    exact .notification _ fun hunique => hunique.insertOrIgnore hs
  · cases h

theorem fanoutStep_effect (h : fanoutStep scrubText relays s e = some t) :
    Effect scrubText relays s t := by
  cases e with
  | relay e =>
      obtain ⟨hallowed, relay, hs, rfl⟩ := relay_eq_some h
      exact .relay hallowed hs
  | enterWebhook i ids =>
      obtain ⟨run, hrun, h⟩ := Option.bind_eq_some_iff.1 h
      split at h
      · next hphase =>
          cases h
          exact .webhook hrun (.enter ids hphase)
      · cases h
  | insertDelivery i =>
      obtain ⟨run, hrun, h⟩ := Option.bind_eq_some_iff.1 h
      exact insertDelivery_effect hrun h
  | commitWebhook i =>
      obtain ⟨run, hrun, h⟩ := Option.bind_eq_some_iff.1 h
      split at h
      · next hphase =>
          cases h
          exact .webhook hrun (.commit hphase)
      · cases h
  | failWebhook i =>
      obtain ⟨run, hrun, h⟩ := Option.bind_eq_some_iff.1 h
      split at h
      · cases h
      · cases h
        exact .webhook hrun .fail
  | enterNotification i selected =>
      obtain ⟨run, -, h⟩ := Option.bind_eq_some_iff.1 h
      split at h
      · cases h
        exact .notification _ id
      · cases h
  | insertNotification i =>
      obtain ⟨run, -, h⟩ := Option.bind_eq_some_iff.1 h
      exact insertNotification_effect h
  | commitNotification i =>
      obtain ⟨run, -, h⟩ := Option.bind_eq_some_iff.1 h
      split at h
      · cases h
        exact .notification _ Inserts.Unique.commit
      · cases h
  | failNotification i =>
      obtain ⟨run, -, h⟩ := Option.bind_eq_some_iff.1 h
      split at h
      · cases h
      · cases h
        exact .notification _ Inserts.Unique.rollback
  | createEndpoint r =>
      simp only [fanoutStep] at h
      split at h
      · cases h
      · next hnot =>
          obtain ⟨endpoints, hs, rfl⟩ := Option.map_eq_some_iff.1 h
          simp only [Bool.or_eq_true, List.contains_iff_mem, decide_eq_true_eq,
            not_or] at hnot
          exact .create hnot.1 hnot.2 hs
  | updateEndpoint args =>
      cases h
      exact .update (updateSet args) (updateSet_id args) (updateSet_organizationId args)
  | disableEndpoint id organizationId at' =>
      cases h
      exact .update (disabledSet at') (fun _ => rfl) fun _ => rfl
  | deleteEndpoint id organizationId =>
      simp only [fanoutStep] at h
      split at h
      · cases h
      · next hfree =>
          split at h
          · next hany =>
              cases h
              refine .delete (fun p hp hid => hfree ?_) hany
              exact List.any_eq_true.2 ⟨p, hp, decide_eq_true hid⟩
          · cases h
            exact .nothing
  | deliverDirectly r =>
      simp only [fanoutStep] at h
      split at h
      · next hdirect =>
          obtain ⟨deliveries, hs, rfl⟩ := Option.map_eq_some_iff.1 h
          exact .direct (Bool.and_eq_true_iff.1 hdirect).1 hs
      · cases h

end Step

/-! ## What every state satisfies -/

structure Sound (s : FanoutState) : Prop where
  stored : Stored s.endpoints s.endpointIds s.deliveries s.created
  notified : Inserts.Unique notificationKey s.notifications
  ids : ∀ k r, s.relay.table.find? k = some r → isUuid k = true
  sources : SourcesKept s.relay
  snapshots : Snapshots s.relay
  claimed : NamesClaimed s.relay
  jobs : ∀ run ∈ s.webhookRuns, ∃ job, s.relay.jobs[run.job]? = some job ∧
    job.record = run.record
  todo : ∀ run ∈ s.webhookRuns, ∀ rows, run.phase = .inserting rows → ∀ r ∈ rows, IsFanout r

namespace Sound

variable {scrubText : String → String} {relays : Nat → Relay} {s t : FanoutState}

theorem start (clock : Time) : Sound (emptySystem clock) where
  stored := Stored.start
  notified := Inserts.unique_empty
  ids := fun _ _ h => nomatch h
  sources := fun _ _ h => nomatch h
  snapshots := fun _ _ h => nomatch h
  claimed := fun _ _ h => nomatch h
  jobs := fun _ h => nomatch h
  todo := fun _ h => nomatch h

theorem runId (h : Sound s) {run : Run DeliveryRow} (hrun : run ∈ s.webhookRuns) :
    isUuid run.record.id = true := by
  obtain ⟨job, hjob, hrec⟩ := h.jobs run hrun
  obtain ⟨r, hr, -⟩ := h.sources _ job hjob
  rw [← hrec]
  exact h.ids _ r hr

/-- The run that begins for a handler is the one of the job that starts. -/
theorem mem_begun {name : String} {e : RelayEvent} {run : Run DeliveryRow}
    (h : run ∈ begun relays s name e) : run.phase = .entered ∧
      ∃ job, s.relay.jobs[run.job]? = some job ∧ job.record = run.record := by
  cases e with
  | start j =>
      simp only [begun] at h
      split at h
      · cases h
      · next job hjob =>
          split at h
          · rw [List.mem_singleton.1 h]
            exact ⟨rfl, job, hjob, rfl⟩
          · cases h
  | _ => cases h

theorem allowed_enqueue {e : RelayEvent} (h : allowed relays s e = true) (r : OutboxRow)
    (he : e = .enqueue r) : r.deliveries = [] := by
  subst he
  simp only [allowed, isNew, Bool.and_eq_true, List.isEmpty_iff] at h
  exact h.2

theorem allowed_id {e : RelayEvent} {k : String} (h : allowed relays s e = true)
    (hadded : AddedBy e k) : isUuid k = true := by
  cases e with
  | enqueue r =>
      simp only [allowed, isNew, Bool.and_eq_true] at h
      rw [show k = r.id from hadded]
      exact h.1.1.1.1.1.1
  | settle j runs doneAt random eventId =>
      simp only [allowed, Bool.and_eq_true] at h
      rw [show k = eventId from hadded]
      exact h.1
  | _ => exact hadded.elim

theorem relayed (h : Sound s) {e : RelayEvent} {relay : RelayState}
    (hallowed : allowed relays s e = true)
    (hs : relayStep scrubText relays s.relay e = some relay) :
    Sound { s with
      relay := relay
      webhookRuns := s.webhookRuns ++ begun relays s WEBHOOK_FANOUT e
      notificationRuns := s.notificationRuns ++ begun relays s NOTIFICATION_FANOUT e } where
  stored := h.stored
  notified := h.notified
  ids := by
    intro k r' hr'
    rcases relayStep_stems (allowed_enqueue hallowed) hs k r' hr' with
      ⟨r, hr, -⟩ | ⟨-, hadded, -⟩
    · exact h.ids k r hr
    · exact allowed_id hallowed hadded
  sources := h.sources.step (allowed_enqueue hallowed) hs
  snapshots := h.snapshots.step hs
  claimed := h.claimed.step (allowed_enqueue hallowed) hs
  jobs := by
    intro run hrun
    have hbefore : ∃ job, s.relay.jobs[run.job]? = some job ∧ job.record = run.record := by
      rcases List.mem_append.1 hrun with hrun | hrun
      · exact h.jobs run hrun
      · exact (mem_begun hrun).2
    obtain ⟨job, hjob, hrec⟩ := hbefore
    obtain ⟨job', hjob', hrec'⟩ := relayStep_keeps_job hs hjob
    exact ⟨job', hjob', hrec'.trans hrec⟩
  todo := by
    intro run hrun rows hphase
    rcases List.mem_append.1 hrun with hrun | hrun
    · exact h.todo run hrun rows hphase
    · rw [(mem_begun hrun).1] at hphase
      cases hphase

theorem entered (h : Sound s) {run : Run DeliveryRow} (hrun : run ∈ s.webhookRuns)
    {ids : String → String} {rows : List DeliveryRow}
    (hphase : enterWebhook s.endpoints s.relay.clock ids run.record = .inserting rows) :
    ∀ r ∈ rows, IsFanout r := by
  unfold enterWebhook at hphase
  split at hphase
  · cases hphase
  · dsimp only at hphase
    split at hphase
    · cases hphase
    · cases hphase
      intro r hr
      obtain ⟨e, -, rfl⟩ := List.mem_map.1 hr
      exact ⟨rfl, h.runId hrun⟩

theorem acted (h : Sound s) {i : Nat} {run : Run DeliveryRow} {phase : RunPhase DeliveryRow}
    {deliveries : Inserts DeliveryRow} {created : List DeliveryRow}
    (hrun : s.webhookRuns[i]? = some run) (hacts : Acts s i run phase deliveries created) :
    Sound { s.setWebhook i run phase with deliveries, created } := by
  have hmem : run ∈ s.webhookRuns := List.mem_of_getElem? hrun
  have hstored : Stored s.endpoints s.endpointIds deliveries created := by
    cases hacts with
    | enter ids hphase => exact h.stored
    | put hphase he hs =>
        exact h.stored.insert (h.todo run hmem _ hphase _ List.mem_cons_self) he hs
    | commit hphase => exact h.stored.commit
    | fail => exact h.stored.rollback
  have htodo : ∀ rows, phase = .inserting rows → ∀ r ∈ rows, IsFanout r := by
    intro rows hrows
    cases hacts with
    | enter ids hphase => exact h.entered hmem hrows
    | put hphase he hs =>
        cases hrows
        exact fun r hr => h.todo run hmem _ hphase r (List.mem_cons_of_mem _ hr)
    | commit hphase => cases hrows
    | fail => cases hrows
  refine { h with stored := hstored, jobs := ?_, todo := ?_ }
  · intro run' hrun'
    rcases List.mem_or_eq_of_mem_set hrun' with hold | rfl
    · exact h.jobs run' hold
    · exact h.jobs run hmem
  · intro run' hrun'
    rcases List.mem_or_eq_of_mem_set hrun' with hold | rfl
    · exact h.todo run' hold
    · exact htodo

theorem step (h : Sound s) (heffect : Effect scrubText relays s t) : Sound t := by
  cases heffect with
  | relay hallowed hs => exact h.relayed hallowed hs
  | webhook hrun hacts => exact h.acted hrun hacts
  | notification runs hkeeps => exact { h with notified := hkeeps h.notified }
  | create hnew horg hs => exact { h with stored := h.stored.create hnew horg hs }
  | update f hkey horg => exact { h with stored := h.stored.updateEndpoints hkey horg }
  | delete hfree hany => exact { h with stored := h.stored.delete hfree hany }
  | direct hdirect hs => exact { h with stored := h.stored.direct hdirect hs }
  | nothing => exact h

end Sound

end CleanStack.Fanout
