import CleanStack.Proofs.FanoutRows

/-!
# Fan-out, exactly once

That nothing is created twice is the unique indexes' doing. That nothing is
missing takes the relay as well: a row is dispatched only with the handler
recorded on it, it is recorded only by a job whose run has returned, and a run
returns only when every row of its insert is committed, by itself or by the run
it lost to. `Watch` says this of one event and one endpoint, from before the
first claim of the row on, and it does not matter which of the runs it was, nor
how long after its job was settled.
-/

namespace CleanStack.Fanout

open CleanStack.Lib CleanStack.Kit CleanStack.Drizzle CleanStack.Events CleanStack.Outbox
open CleanStack.Webhooks (DeliveryRow EndpointTable WebhookEndpointRow ownedBy ownedBy_iff
  updateSet updateSet_id updateSet_organizationId disabledSet)

/-! ## One event and one endpoint -/

/-- The endpoint is the organization's, enabled, and subscribed to the type. -/
def Wants (x organizationId eventType : String) (s : FanoutState) : Prop :=
  ∃ r, s.endpoints.find? x = some r ∧ r.organizationId = organizationId ∧
    r.enabled = true ∧ matchesSubscription eventType r.eventTypes = true

/-- The event has its delivery to the endpoint, as long as the endpoint is there. -/
def Delivered (k x : String) (s : FanoutState) : Prop :=
  (s.endpoints.find? x).isSome = true →
    ∃ r ∈ s.deliveries.rows, deliveryKey r = idempotencyKeyOf k x

/-- What a run for the event owes the endpoint: while it inserts, the row is
still to come or it has the key, and when it has returned the delivery is there. -/
def Owes (k x : String) (s : FanoutState) (i : Nat) : RunPhase DeliveryRow → Prop
  | .inserting todo => (s.endpoints.find? x).isSome = true →
      (∃ r ∈ todo, deliveryKey r = idempotencyKeyOf k x) ∨
        Inserts.Has deliveryKey s.deliveries i (idempotencyKeyOf k x)
  | .returned => Delivered k x s
  | _ => True

/-- While the endpoint is there it was there before, and its delivery stays. -/
def Preserves (k x : String) (s t : FanoutState) : Prop :=
  (t.endpoints.find? x).isSome = true → (s.endpoints.find? x).isSome = true ∧
    ∀ r ∈ s.deliveries.rows, deliveryKey r = idempotencyKeyOf k x → r ∈ t.deliveries.rows

section Watch

variable {scrubText : String → String} {relays : Nat → Relay} {s t : FanoutState}
  {k x organizationId eventType : String}

theorem Delivered.preserved (h : Delivered k x s) (hp : Preserves k x s t) : Delivered k x t := by
  intro hsome
  obtain ⟨hbefore, hrows⟩ := hp hsome
  obtain ⟨r, hr, hkey⟩ := h hbefore
  exact ⟨r, hrows r hr hkey, hkey⟩

theorem Owes.preserved {i : Nat} {phase : RunPhase DeliveryRow} (h : Owes k x s i phase)
    (hp : Preserves k x s t)
    (hpending : ∀ r, (i, r) ∈ s.deliveries.pending → (i, r) ∈ t.deliveries.pending) :
    Owes k x t i phase := by
  cases phase with
  | inserting todo =>
      intro hsome
      obtain ⟨hbefore, hrows⟩ := hp hsome
      rcases h hbefore with htodo | ⟨r, hr, hkey⟩
      · exact .inl htodo
      · refine .inr ⟨r, ?_, hkey⟩
        rcases List.mem_append.1 hr with hr | hr
        · exact List.mem_append_left _ (hrows r hr hkey)
        · exact List.mem_append_right _
            (Inserts.mem_pendingOf.2 (hpending r (Inserts.mem_pendingOf.1 hr)))
  | returned => exact Delivered.preserved h hp
  | entered | thrown => trivial

/-- A step that leaves the endpoints alone and takes no row away. -/
theorem Preserves.of_rows (hend : t.endpoints = s.endpoints)
    (hrows : s.deliveries.rows ⊆ t.deliveries.rows) : Preserves k x s t := by
  intro hsome
  rw [hend] at hsome
  exact ⟨hsome, fun r hr _ => hrows hr⟩

theorem Acts.rows {i : Nat} {run : Run DeliveryRow} {phase : RunPhase DeliveryRow}
    {deliveries : Inserts DeliveryRow} {created : List DeliveryRow}
    (h : Acts s i run phase deliveries created) : s.deliveries.rows ⊆ deliveries.rows := by
  cases h with
  | enter ids hphase => exact List.Subset.refl _
  | put hphase he hs =>
      rcases Inserts.insertOrIgnore_cases hs with ⟨rfl, -⟩ | ⟨rfl, -⟩
      · exact List.Subset.refl _
      · exact List.Subset.refl _
  | commit hphase => exact List.subset_append_right _ _
  | fail => exact List.Subset.refl _

/-- What the other transactions have written is not touched. -/
theorem Acts.pending {i j : Nat} {run : Run DeliveryRow} {phase : RunPhase DeliveryRow}
    {deliveries : Inserts DeliveryRow} {created : List DeliveryRow}
    (h : Acts s i run phase deliveries created) (hne : j ≠ i) {r : DeliveryRow}
    (hr : (j, r) ∈ s.deliveries.pending) : (j, r) ∈ deliveries.pending := by
  cases h with
  | enter ids hphase => exact hr
  | put hphase he hs =>
      rcases Inserts.insertOrIgnore_cases hs with ⟨rfl, -⟩ | ⟨rfl, -⟩
      · exact hr
      · exact List.mem_cons_of_mem _ hr
  | commit hphase => exact Inserts.mem_forget.2 ⟨hr, hne⟩
  | fail => exact Inserts.mem_forget.2 ⟨hr, hne⟩

theorem Effect.preserves (h : Effect scrubText relays s t) (hs : Sound s)
    (hk : isUuid k = true) (hx : x ∈ s.endpointIds) : Preserves k x s t := by
  cases h with
  | relay hallowed hs => exact Preserves.of_rows rfl (List.Subset.refl _)
  | webhook hrun hacts => exact Preserves.of_rows rfl hacts.rows
  | notification runs hkeeps => exact Preserves.of_rows rfl (List.Subset.refl _)
  | create hnew horg hins =>
      intro hsome
      refine ⟨?_, fun r hr _ => hr⟩
      rw [Table.find?_insert hins, if_neg] at hsome
      · exact hsome
      · intro hid
        rw [← hid] at hx
        exact hnew hx
  | update f hkey horg =>
      intro hsome
      rw [Table.find?_update, Option.isSome_map] at hsome
      exact ⟨hsome, fun r hr _ => hr⟩
  | delete hfree hany =>
      intro hsome
      obtain ⟨e, he⟩ := Option.isSome_iff_exists.1 hsome
      obtain ⟨hbefore, hne⟩ := Stored.find?_deleted hany he
      refine ⟨by rw [hbefore]; rfl, fun r hr hkey => List.mem_filter.2 ⟨hr, ?_⟩⟩
      have hend : r.endpointId = x := (hs.stored.of_key hr hk hkey).2.2
      simp [hend, hne]
  | direct hdirect hins =>
      obtain ⟨rfl, -⟩ := Inserts.insertNew_cases hins
      exact Preserves.of_rows rfl (List.subset_cons_self _ _)
  | nothing => exact Preserves.of_rows rfl (List.Subset.refl _)

theorem Effect.known (h : Effect scrubText relays s t) (hx : x ∈ s.endpointIds) :
    x ∈ t.endpointIds := by
  cases h with
  | create hnew horg hins => exact List.mem_cons_of_mem _ hx
  | _ => exact hx

/-- What is known of the event and the endpoint: once the handler is recorded on
the row, or a run for the event has returned, the delivery is there. -/
structure Watch (k x organizationId eventType : String) (s : FanoutState) : Prop where
  known : x ∈ s.endpointIds
  recorded : ∀ r, s.relay.table.find? k = some r → r.organizationId = some organizationId →
    r.eventType = eventType → WEBHOOK_FANOUT ∈ r.deliveries.names → Delivered k x s
  runs : ∀ i run, s.webhookRuns[i]? = some run → run.record.id = k →
    run.record.organizationId = some organizationId → run.record.eventType = eventType →
    Owes k x s i run.phase

/-- Before the first claim of the row nothing is recorded on it, and no run is
for it. -/
theorem Watch.start (hs : Sound s) (hfirst : ∀ job ∈ s.relay.jobs, job.record.id ≠ k)
    (hx : x ∈ s.endpointIds) : Watch k x organizationId eventType s where
  known := hx
  recorded := by
    intro r hr _ _ hname
    obtain ⟨job, hjob, hid⟩ := hs.claimed k r hr (List.ne_nil_of_mem hname)
    exact absurd hid (hfirst job hjob)
  runs := by
    intro i run hrun hid _ _
    obtain ⟨job, hjob, hrec⟩ := hs.jobs run (List.mem_of_getElem? hrun)
    rw [← hrec] at hid
    exact absurd hid (hfirst job (List.mem_of_getElem? hjob))

/-- A run that enters while the endpoint wants the event has its row among those
it inserts. -/
theorem owes_entered {i : Nat} {ids : String → String} {record : OutboxRecord}
    (hs : Sound s) (hwants : Wants x organizationId eventType s)
    (hpublic : (isKnownEventType eventType && isPublicEvent eventType) = true)
    (hid : record.id = k) (horg : record.organizationId = some organizationId)
    (hty : record.eventType = eventType) :
    Owes k x s i (enterWebhook s.endpoints s.relay.clock ids record) := by
  obtain ⟨e, he, heorg, henabled, hmatches⟩ := hwants
  have hnotempty : organizationId ≠ "" := heorg ▸ (hs.stored.known x e he).2
  have hto : deliverableTo record = some organizationId := by
    simp only [deliverableTo, horg, hty]
    rw [if_neg hnotempty, if_pos hpublic]
  obtain ⟨hmem, hkey⟩ := Table.find?_eq_some.1 he
  have hwanted : e ∈ wantedBy s.endpoints organizationId record.eventType :=
    List.mem_filter.2 ⟨hmem, by simp [heorg, henabled, hty, hmatches]⟩
  simp only [enterWebhook, hto]
  rw [if_neg (Nat.ne_of_gt (List.length_pos_of_mem hwanted))]
  intro _
  refine .inl ⟨_, List.mem_map_of_mem hwanted, ?_⟩
  show idempotencyKeyOf record.id e.id = idempotencyKeyOf k x
  rw [hid, show e.id = x from hkey]

theorem owes_acted {i : Nat} {run : Run DeliveryRow} {phase : RunPhase DeliveryRow}
    {deliveries : Inserts DeliveryRow} {created : List DeliveryRow}
    (hs : Sound s) (hwants : Wants x organizationId eventType s)
    (hpublic : (isKnownEventType eventType && isPublicEvent eventType) = true)
    (hacts : Acts s i run phase deliveries created)
    (hid : run.record.id = k) (horg : run.record.organizationId = some organizationId)
    (hty : run.record.eventType = eventType) (howes : Owes k x s i run.phase) :
    Owes k x { s.setWebhook i run phase with deliveries, created } i phase := by
  cases hacts with
  | enter ids hphase =>
      have hentered : Owes k x s i (enterWebhook s.endpoints s.relay.clock ids run.record) :=
        owes_entered hs hwants hpublic hid horg hty
      exact hentered.preserved (Preserves.of_rows rfl (List.Subset.refl _)) fun _ hr => hr
  | put hphase he hins =>
      rw [hphase] at howes
      intro hsome
      rcases howes hsome with ⟨r', hr', hkey⟩ | hhas
      · rcases List.mem_cons.1 hr' with rfl | hr'
        · exact .inr (hkey ▸ Inserts.Has.inserted hins)
        · exact .inl ⟨r', hr', hkey⟩
      · exact .inr (hhas.insertOrIgnore hins)
  | commit hphase =>
      rw [hphase] at howes
      intro hsome
      rcases howes hsome with ⟨r', hr', -⟩ | hhas
      · cases hr'
      · exact hhas.committed
  | fail => trivial

/-- The handler joins the names of the row when a job of the row reports it, and
then its run has returned. -/
theorem Watch.recorded_relay (hw : Watch k x organizationId eventType s) (hs : Sound s)
    {e : RelayEvent} {relay : RelayState} (hallowed : allowed relays s e = true)
    (hstep : relayStep scrubText relays s.relay e = some relay) {r' : OutboxRow}
    (hr' : relay.table.find? k = some r') (horg : r'.organizationId = some organizationId)
    (hty : r'.eventType = eventType) (hname : WEBHOOK_FANOUT ∈ r'.deliveries.names) :
    Delivered k x s := by
  rcases relayStep_stems (Sound.allowed_enqueue hallowed) hstep k r' hr' with
    ⟨r, hr, htyr, horgr, hnames⟩ | ⟨-, -, hdel⟩
  · rw [htyr] at hty
    rw [horgr] at horg
    rcases hnames _ hname with hold | ⟨j, runs, doneAt, random, eventId, job, rfl, hj, hid, hrep⟩
    · exact hw.recorded r hr horg hty hold
    · -- the job reports the handler, so the run of the handler in the job has returned
      simp only [allowed, hj, Bool.and_eq_true, List.all_eq_true] at hallowed
      have hout := hallowed.2 _ (mem_reported.1 hrep)
      have hreturned : hasReturned s.webhookRuns j = true := by
        simp only [decide_true, Bool.not_true, Bool.false_or, Bool.and_eq_true] at hout
        exact hout.1
      obtain ⟨run, hrun, hdone⟩ := List.any_eq_true.1 hreturned
      obtain ⟨hjob, hphase⟩ := Bool.and_eq_true_iff.1 hdone
      obtain ⟨i, hi⟩ := List.mem_iff_getElem?.1 hrun
      obtain ⟨job', hj', hrec⟩ := hs.jobs run hrun
      rw [of_decide_eq_true hjob, hj] at hj'
      cases hj'
      obtain ⟨r₀, hr₀, hty₀, horg₀⟩ := hs.sources j job hj
      rw [hid, hr] at hr₀
      cases hr₀
      have howes := hw.runs i run hi (hrec ▸ hid) (hrec ▸ horg₀.symm.trans horg)
        (hrec ▸ hty₀.symm.trans hty)
      split at hphase
      · next hret =>
          rw [hret] at howes
          exact howes
      · cases hphase
  · rw [hdel] at hname
    cases hname

theorem Watch.step (hw : Watch k x organizationId eventType s) (hs : Sound s)
    (hk : isUuid k = true) (hwants : Wants x organizationId eventType s)
    (hpublic : (isKnownEventType eventType && isPublicEvent eventType) = true)
    (h : Effect scrubText relays s t) : Watch k x organizationId eventType t := by
  have hp : Preserves k x s t := h.preserves hs hk hw.known
  refine ⟨h.known hw.known, ?_, ?_⟩
  · intro r' hr' horg hty hname
    refine Delivered.preserved ?_ hp
    cases h with
    | relay hallowed hstep => exact hw.recorded_relay hs hallowed hstep hr' horg hty hname
    | _ => exact hw.recorded r' hr' horg hty hname
  · intro i run' hrun' hid horg hty
    cases h with
    | relay hallowed hstep =>
        rcases Nat.lt_or_ge i s.webhookRuns.length with hlt | hge
        · rw [List.getElem?_append_left hlt] at hrun'
          exact (hw.runs i run' hrun' hid horg hty).preserved hp fun _ hr => hr
        · rw [List.getElem?_append_right hge] at hrun'
          rw [(Sound.mem_begun (List.mem_of_getElem? hrun')).1]
          trivial
    | webhook hrun hacts =>
        next j run phase deliveries created =>
        change (s.webhookRuns.set j _)[i]? = some run' at hrun'
        rcases getElem?_set_cases hrun' with ⟨rfl, rfl⟩ | ⟨hij, hold⟩
        · exact owes_acted hs hwants hpublic hacts hid horg hty (hw.runs i run hrun hid horg hty)
        · exact (hw.runs i run' hold hid horg hty).preserved hp fun _ hr => hacts.pending hij hr
    | direct hdirect hins =>
        obtain ⟨rfl, -⟩ := Inserts.insertNew_cases hins
        exact (hw.runs i run' hrun' hid horg hty).preserved hp fun _ hr => hr
    | _ => exact (hw.runs i run' hrun' hid horg hty).preserved hp fun _ hr => hr

end Watch

/-! ## The guarantees -/

/-- A delivery that the fan-out created for the event and the endpoint. -/
def isFor (k x : String) (r : DeliveryRow) : Bool :=
  decide (r.outboxEventId = k) && decide (r.endpointId = x)

def isNotice (userId dedupKey : String) (r : NotificationRow) : Bool :=
  decide (r.userId = userId) && decide (r.dedupKey = dedupKey)

/-- A delivery of the table is one the fan-out created or one sent on request;
the fan-out has created no two for an event and an endpoint, and no two
notifications for a user under one key. -/
structure AtMostOnce (s : FanoutState) : Prop where
  created : ∀ r ∈ s.deliveries.rows, r ∈ s.created ∨ isDirectKey r.idempotencyKey = true
  deliveries : ∀ k x, (s.created.filter (isFor k x)).length ≤ 1
  notifications : ∀ userId dedupKey,
    (s.notifications.rows.filter (isNotice userId dedupKey)).length ≤ 1

/-- The fan-out created one delivery for the event and the endpoint, and it is
in the table. -/
def DeliveredOnce (k x : String) (s : FanoutState) : Prop :=
  ∃ r ∈ s.deliveries.rows, s.created.filter (isFor k x) = [r]

/-- The step dispatches the row of the event, and it settles a job of a relay
that has the handler subscribed to the type. -/
structure Dispatches (relays : Nat → Relay) (m : FanoutState) (e : FanoutEvent)
    (t : FanoutState) (k organizationId eventType : String) : Prop where
  before : ∃ r, m.relay.table.find? k = some r ∧ r.dispatchedAt = none
  after : ∃ r', t.relay.table.find? k = some r' ∧ r'.dispatchedAt ≠ none ∧
    r'.organizationId = some organizationId ∧ r'.eventType = eventType
  subscribed : ∃ j runs doneAt random eventId job,
    e = .relay (.settle j runs doneAt random eventId) ∧ m.relay.jobs[j]? = some job ∧
    WEBHOOK_FANOUT ∈ namesOf relays job

section Guarantees

variable {scrubText : String → String} {relays : Nat → Relay} {clock : Time}
  {s m t : FanoutState} {e : FanoutEvent} {es : List FanoutEvent}
  {k x organizationId eventType : String}

theorem sound_run (hs : Sound s) (h : exec (fanoutStep scrubText relays) s es = some t) :
    Sound t := by
  have hstep : ∀ a b c, Sound a → fanoutStep scrubText relays a b = some c → Sound c :=
    fun _ _ _ ha hc => ha.step (fanoutStep_effect hc)
  exact runs_inv hstep hs h

theorem Sound.atMostOnce (hs : Sound s) : AtMostOnce s where
  created := hs.stored.rows
  deliveries := by
    intro k x
    refine Inserts.filter_key_le_one hs.stored.once fun a ha b hb hpa hpb => ?_
    simp only [isFor, Bool.and_eq_true, decide_eq_true_eq] at hpa hpb
    show a.idempotencyKey = b.idempotencyKey
    rw [(hs.stored.stays a ha).1.1, (hs.stored.stays b hb).1.1, hpa.1, hpa.2, hpb.1, hpb.2]
  notifications := by
    intro userId dedupKey
    have hrows : (s.notifications.rows.map notificationKey).Nodup :=
      hs.notified.sublist ((List.sublist_append_left _ _).map _)
    refine Inserts.filter_key_le_one hrows fun a _ b _ hpa hpb => ?_
    simp only [isNotice, Bool.and_eq_true, decide_eq_true_eq] at hpa hpb
    show (a.userId, a.dedupKey) = (b.userId, b.dedupKey)
    rw [hpa.1, hpa.2, hpb.1, hpb.2]

theorem Delivered.once (h : Delivered k x s) (hs : Sound s) (hk : isUuid k = true)
    (hsome : (s.endpoints.find? x).isSome = true) : DeliveredOnce k x s := by
  obtain ⟨r, hr, hkey⟩ := h hsome
  obtain ⟨hcreated, hid, hend⟩ := hs.stored.of_key hr hk hkey
  have hmem : r ∈ s.created.filter (isFor k x) :=
    List.mem_filter.2 ⟨hcreated, by simp [isFor, hid, hend]⟩
  have hle := hs.atMostOnce.deliveries k x
  refine ⟨r, hr, ?_⟩
  cases hfilter : s.created.filter (isFor k x) with
  | nil =>
      rw [hfilter] at hmem
      cases hmem
  | cons a rest =>
      rw [hfilter] at hmem hle
      have hrest : rest = [] := List.length_eq_zero_iff.1 (by
        rw [List.length_cons] at hle
        omega)
      subst hrest
      rw [List.mem_singleton.1 hmem]

/-- The step that dispatches the row leaves the handler recorded on it: the job
found it in its snapshot or started it. -/
theorem recorded_of_dispatches (hs : Sound m) (h : fanoutStep scrubText relays m e = some t)
    (hd : Dispatches relays m e t k organizationId eventType) :
    ∃ r', t.relay.table.find? k = some r' ∧ r'.organizationId = some organizationId ∧
      r'.eventType = eventType ∧ WEBHOOK_FANOUT ∈ r'.deliveries.names := by
  obtain ⟨r, hr, hopen⟩ := hd.before
  obtain ⟨r', hr', hdone, horg, hty⟩ := hd.after
  obtain ⟨j, runs, doneAt, random, eventId, job, rfl, hj, hsubscribed⟩ := hd.subscribed
  obtain ⟨-, relay, hstep, rfl⟩ := relay_eq_some h
  refine ⟨r', hr', horg, hty, ?_⟩
  obtain ⟨r₁, hr₁, -, -, hD⟩ := relayStep_evolves hstep k r hr
  rw [show relay.table.find? k = some r' from hr'] at hr₁
  cases hr₁
  obtain ⟨_, _, _, _, _, job', r₀, he, hj', hr₀, hid, hsub, hran⟩ := hD hopen hdone
  cases he
  rw [hj] at hj'
  cases hj'
  obtain ⟨r₂, hr₂, -, hsnap⟩ := hs.snapshots j job hj
  rw [hr₀] at hr₂
  cases hr₂
  by_cases hin : isIn WEBHOOK_FANOUT job.record.deliveries = true
  · rcases Bool.or_eq_true_iff.1 hin with hown | hproto
    · exact hsub (hsnap (by simpa using hown))
    · exact absurd hproto (by decide)
  · exact hran _ (List.mem_filter.2 ⟨hsubscribed, by simpa using hin⟩)

/-- Whatever order the relays, the runs of the handlers and the changes of the
endpoints come in: nothing is created twice, and a public event of an
organization that is dispatched by a relay with the handler has its one delivery
to every endpoint that wanted it from before its first claim until then, for as
long as the endpoint is there. -/
theorem fanout_exactly_once
    (h : exec (fanoutStep scrubText relays) (emptySystem clock) es = some s) :
    AtMostOnce s ∧
      ∀ (pre mid post : List FanoutEvent) (e : FanoutEvent) (m₀ m t : FanoutState)
        (k x organizationId eventType : String),
        es = pre ++ (mid ++ e :: post) →
        exec (fanoutStep scrubText relays) (emptySystem clock) pre = some m₀ →
        exec (fanoutStep scrubText relays) m₀ mid = some m →
        fanoutStep scrubText relays m e = some t →
        (∀ job ∈ m₀.relay.jobs, job.record.id ≠ k) →
        Dispatches relays m e t k organizationId eventType →
        (isKnownEventType eventType && isPublicEvent eventType) = true →
        Meets (fanoutStep scrubText relays) (fun s _ => Wants x organizationId eventType s) m₀
          (mid ++ [e]) →
        (s.endpoints.find? x).isSome = true → DeliveredOnce k x s := by
  have hsound : Sound s := sound_run (Sound.start clock) h
  refine ⟨hsound.atMostOnce, ?_⟩
  intro pre mid post e m₀ m t k x organizationId eventType hes hpre hmid hstep hfirst hd
    hpublic hmeets hsome
  have hsound₀ : Sound m₀ := sound_run (Sound.start clock) hpre
  have hsound₁ : Sound m := sound_run hsound₀ hmid
  have hk : isUuid k = true := by
    obtain ⟨r, hr, -⟩ := hd.before
    exact hsound₁.ids k r hr
  have hx : x ∈ m₀.endpointIds := by
    have hwants : Wants x organizationId eventType m₀ := by
      cases mid with
      | nil => exact hmeets.1
      | cons a rest => exact hmeets.1
    obtain ⟨r, hr, -⟩ := hwants
    exact (hsound₀.stored.known x r hr).1
  -- up to the dispatch the endpoint wants the event
  have hwatch : Sound t ∧ Watch k x organizationId eventType t := by
    have hone : ∀ a b c, (Sound a ∧ Watch k x organizationId eventType a) →
        Wants x organizationId eventType a → fanoutStep scrubText relays a b = some c →
        (Sound c ∧ Watch k x organizationId eventType c) := by
      intro a b c ha hwants hc
      have heffect := fanoutStep_effect hc
      exact ⟨ha.1.step heffect, ha.2.step ha.1 hk hwants hpublic heffect⟩
    exact runs_inv_meets hone ⟨hsound₀, Watch.start hsound₀ hfirst hx⟩ hmeets
      (exec_snoc hmid hstep)
  obtain ⟨r', hr', horg, hty, hname⟩ := recorded_of_dispatches hsound₁ hstep hd
  have hdelivered : Delivered k x t := hwatch.2.recorded r' hr' horg hty hname
  -- and from then on nothing takes the delivery away but the end of the endpoint
  have hpost : exec (fanoutStep scrubText relays) t post = some s := by
    rw [hes, exec_append, hpre, Option.bind_some, exec_append, hmid, Option.bind_some,
      exec, hstep, Option.bind_some] at h
    exact h
  have hkept : Sound s ∧ x ∈ s.endpointIds ∧ Delivered k x s := by
    have hone : ∀ a b c, (Sound a ∧ x ∈ a.endpointIds ∧ Delivered k x a) →
        fanoutStep scrubText relays a b = some c →
        (Sound c ∧ x ∈ c.endpointIds ∧ Delivered k x c) := by
      intro a b c hkept hc
      obtain ⟨ha, hxa, hda⟩ := hkept
      have heffect := fanoutStep_effect hc
      exact ⟨ha.step heffect, heffect.known hxa, hda.preserved (heffect.preserves ha hk hxa)⟩
    exact runs_inv hone ⟨hwatch.1, hwatch.2.known, hdelivered⟩ hpost
  exact hkept.2.2.once hsound hk hsome

end Guarantees

/-! ## One sign-up -/

def signUpId : String := "0190a000-0000-7000-8000-000000000001"

def signUp : OutboxRow where
  id := signUpId
  eventType := "user.created"
  aggregateId := "u1"
  aggregateType := "user"
  organizationId := some "o1"
  payload := .null
  requestId := none
  occurredAt := 5
  dispatchedAt := none
  attempts := 0
  lastError := none
  nextAttemptAt := none
  deadAt := none
  deliveries := []

def signUpEndpoint : WebhookEndpointRow :=
  Webhooks.newEndpoint ⟨"w1", "o1", "https://example.com", "c", none, none⟩ ["user.*"] true

def fanoutRelay : Relay where
  options := ⟨["user.created"], 10, 8, 60, 3600, 4, 5⟩
  dispatcher :=
    { handlers := [("user.created", [WEBHOOK_FANOUT])]
      named := by decide +kernel
      distinct := by decide +kernel }

def signUpWritten : List FanoutEvent := [.createEndpoint signUpEndpoint, .relay (.enqueue signUp)]

def signUpHandled : List FanoutEvent :=
  [.relay (.claim 0 fun _ => false), .relay (.start 0), .enterWebhook 0 fun _ => "d1",
    .insertDelivery 0, .commitWebhook 0]

def signUpSettled : FanoutEvent :=
  .relay (.settle 0 [.ok] "now" 0 "0190a000-0000-7000-8000-000000000002")

def wantsSignUp (s : FanoutState) (_ : FanoutEvent) : Bool :=
  (s.endpoints.find? "w1").any fun r => decide (r.organizationId = "o1") && r.enabled &&
    matchesSubscription "user.created" r.eventTypes

theorem fanout_exactly_once_sign_up :
    ∃ s, exec (fanoutStep id fun _ => fanoutRelay) (emptySystem 9)
      (signUpWritten ++ (signUpHandled ++ [signUpSettled])) = some s ∧
      AtMostOnce s ∧ DeliveredOnce signUpId "w1" s := by
  have hrun : (exec (fanoutStep id fun _ => fanoutRelay) (emptySystem 9)
      (signUpWritten ++ (signUpHandled ++ [signUpSettled]))).map
        (fun s => ((s.endpoints.find? "w1").isSome, (s.relay.table.find? signUpId).map
          fun r => (r.dispatchedAt.isSome, r.organizationId, r.eventType))) =
      some (true, some (true, some "o1", "user.created")) := by decide
  obtain ⟨s, hs, hsees⟩ := Option.map_eq_some_iff.1 hrun
  have hsplit := hs
  rw [exec_append, Option.bind_eq_some_iff] at hsplit
  obtain ⟨m₀, hpre, hrest⟩ := hsplit
  obtain ⟨m, hmid, hstep⟩ := exec_snoc_iff.1 hrest
  obtain ⟨hsome, hrow⟩ := Prod.mk.inj hsees
  obtain ⟨r', hr', hcols⟩ := Option.map_eq_some_iff.1 hrow
  simp only [Prod.mk.injEq] at hcols
  have hjobs : (exec (fanoutStep id fun _ => fanoutRelay) (emptySystem 9) signUpWritten).map
      (fun s => s.relay.jobs.length) = some 0 := by decide
  rw [hpre, Option.map_some, Option.some_inj, List.length_eq_zero_iff] at hjobs
  have hbefore : (exec (fanoutStep id fun _ => fanoutRelay) (emptySystem 9)
      (signUpWritten ++ signUpHandled)).map (fun m =>
        ((m.relay.table.find? signUpId).map OutboxRow.dispatchedAt,
          m.relay.jobs[0]?.map (fun job => namesOf (fun _ => fanoutRelay) job))) =
      some (some none, some [WEBHOOK_FANOUT]) := by decide
  rw [exec_append, hpre, Option.bind_some, hmid, Option.map_some, Option.some_inj,
    Prod.mk.injEq] at hbefore
  obtain ⟨r, hr, hopen⟩ := Option.map_eq_some_iff.1 hbefore.1
  obtain ⟨job, hjob, hnames⟩ := Option.map_eq_some_iff.1 hbefore.2
  have hwants : Meets (fanoutStep id fun _ => fanoutRelay)
      (fun s _ => Wants "w1" "o1" "user.created" s) m₀ (signUpHandled ++ [signUpSettled]) := by
    have htest : ∀ s e, wantsSignUp s e = true → Wants "w1" "o1" "user.created" s := by
      intro s e h
      obtain ⟨r, hr, hr'⟩ := (Option.any_eq_true _ _).1 h
      simp only [Bool.and_eq_true, decide_eq_true_eq] at hr'
      exact ⟨r, hr, hr'.1.1, hr'.1.2, hr'.2⟩
    have hpasses : (exec (fanoutStep id fun _ => fanoutRelay) (emptySystem 9) signUpWritten).map
        (fun s => passes (fanoutStep id fun _ => fanoutRelay) wantsSignUp s
          (signUpHandled ++ [signUpSettled])) = some true := by decide
    rw [hpre, Option.map_some, Option.some_inj] at hpasses
    exact meets_of_passes htest hpasses
  obtain ⟨hatmost, honce⟩ := fanout_exactly_once hs
  refine ⟨s, hs, hatmost, honce signUpWritten signUpHandled [] signUpSettled m₀ m s signUpId
    "w1" "o1" "user.created" rfl hpre hmid hstep ?_ ⟨⟨r, hr, hopen⟩, ⟨r', hr', ?_, hcols.2.1,
      hcols.2.2⟩, ?_⟩ (by decide) hwants hsome⟩
  · rw [hjobs]
    exact fun _ h => nomatch h
  · intro hnone
    rw [hnone] at hcols
    cases hcols.1
  · exact ⟨0, _, _, _, _, job, rfl, hjob, by rw [hnames]; exact List.mem_singleton_self _⟩

end CleanStack.Fanout
