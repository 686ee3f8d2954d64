import CleanStack.Lib.Snapshots
import CleanStack.Outbox.Relay

/-!
# The death of an outbox event

A relay announces a death when the record it claimed was alive and the failure
it writes is the last. The record remembers whether the row was dead, and
`Snapshots` says that this is still so where the write is accepted; so the
announcement goes with the row's `deadAt`, in the one transaction, and an
announcement that dies itself is not announced.

The id of an announcement is drawn at random. A draw that is taken already
would lose the announcement, and is ruled out.
-/

namespace CleanStack.Outbox

open CleanStack.Lib CleanStack.Lib.Snapshots CleanStack.Drizzle CleanStack.Kit

def isDead (r : OutboxRow) : Bool := r.deadAt.isSome

/-- The row's `deadAt` goes from null to a date. -/
def Dies (t t' : OutboxTable) (id : String) : Prop :=
  (t.find? id).map isDead = some false ∧ (t'.find? id).map isDead = some true

instance (t t' : OutboxTable) (id : String) : Decidable (Dies t t' id) :=
  inferInstanceAs (Decidable (_ ∧ _))

def isAnnouncement (r : OutboxRow) : Bool := r.eventType = OUTBOX_EVENT_DEAD

/-- The row is not an announcement. -/
def Announced (t : OutboxTable) (id : String) : Prop :=
  (t.find? id).map isAnnouncement = some false

instance (t : OutboxTable) (id : String) : Decidable (Announced t id) :=
  inferInstanceAs (Decidable (_ = _))

/-- How often the death of an event is announced. -/
def announcements (t : OutboxTable) (id : String) : Nat :=
  (t.rows.filter fun r => isAnnouncement r && r.aggregateId = id).length

/-- From one table to the next, each death of an event that is no announcement
is announced once, and nothing else is announced. -/
def AnnouncesDeaths (t t' : OutboxTable) : Prop :=
  ∀ id, announcements t' id =
    announcements t id + if Dies t t' id ∧ Announced t id then 1 else 0

/-! ## What the statements do -/

section Tables

variable {t t' : OutboxTable}

theorem announcements_update {p : OutboxRow → Bool} {f : OutboxRow → OutboxRow}
    (hf : ∀ r, Keyed.key (f r) = Keyed.key r)
    (hkind : ∀ r, isAnnouncement (f r) = isAnnouncement r)
    (habout : ∀ r, (f r).aggregateId = r.aggregateId) (id : String) :
    announcements (t.update p f hf) id = announcements t id := by
  have hsame : ∀ r, (isAnnouncement (if p r then f r else r) &&
      (if p r then f r else r).aggregateId = id) =
      (isAnnouncement r && r.aggregateId = id) := by
    intro r
    split
    · rw [hkind, habout]
    · rfl
  rw [announcements, announcements, Table.update, List.filter_map, List.length_map]
  simp only [Function.comp_def, hsame]

/-- A statement that neither kills a row nor adds one announces nothing. -/
theorem announcesDeaths_update {p : OutboxRow → Bool} {f : OutboxRow → OutboxRow}
    (hf : ∀ r, Keyed.key (f r) = Keyed.key r)
    (hkind : ∀ r, isAnnouncement (f r) = isAnnouncement r)
    (habout : ∀ r, (f r).aggregateId = r.aggregateId)
    (hdead : ∀ r, isDead (f r) = true → isDead r = true) :
    AnnouncesDeaths t (t.update p f hf) := by
  intro id
  rw [announcements_update hf hkind habout, if_neg]
  · rfl
  · rintro ⟨⟨halive, hdies⟩, -⟩
    rw [Table.find?_update, Option.map_map] at hdies
    obtain ⟨r, hr, hdies⟩ := Option.map_eq_some_iff.1 hdies
    rw [hr, Option.map_some, Option.some.injEq] at halive
    rw [Function.comp_apply] at hdies
    split at hdies
    · rw [hdead r hdies] at halive
      cases halive
    · rw [hdies] at halive
      cases halive

theorem announcesDeaths_refl (t : OutboxTable) : AnnouncesDeaths t t := by
  intro id
  rw [if_neg]
  · rfl
  · rintro ⟨⟨halive, hdead⟩, -⟩
    rw [halive] at hdead
    cases hdead

theorem announcements_insert {r : OutboxRow} (h : t.insert r = some t') (id : String) :
    announcements t' id =
      announcements t id + if isAnnouncement r && r.aggregateId = id then 1 else 0 := by
  unfold Table.insert at h
  split at h
  · cases h
  · cases h
    rw [announcements, announcements, List.filter_cons]
    split
    · rfl
    · rfl

theorem announcesDeaths_enqueue {r : OutboxRow} (hr : isAnnouncement r = false) :
    AnnouncesDeaths t (enqueue t r) := by
  unfold enqueue
  cases hins : t.insert r with
  | none => exact announcesDeaths_refl t
  | some u =>
      intro id
      rw [Option.getD_some, announcements_insert hins, hr, if_neg, if_neg]
      · rintro ⟨⟨halive, hdead⟩, -⟩
        rw [Table.find?_insert hins] at hdead
        split at hdead
        · next hkey =>
            have hfresh : t.find? id = none := Table.find?_eq_none.2 fun r' hr' =>
              hkey ▸ Table.insert_fresh hins r' hr'
            rw [hfresh] at halive
            cases halive
        · rw [halive] at hdead
          cases hdead
      · exact Bool.false_ne_true

end Tables

/-! ## What the jobs remember -/

/-- What decides an announcement: whether the row is dead, and whether it is an
announcement. -/
def outlook (r : OutboxRow) : Bool × Bool := (isDead r, isAnnouncement r)

def heldOf (record : OutboxRecord) : Held String (Bool × Bool) :=
  ⟨record.id, record.attempts, (record.deadAt.isSome, record.eventType = OUTBOX_EVENT_DEAD)⟩

def isOpen (job : Job) : Bool := job.phase ≠ .over

def heldJobs (jobs : List Job) : List (Held String (Bool × Bool)) :=
  openClaims isOpen (fun job => heldOf job.record) jobs

theorem heldJobs_claimed (i : Nat) (rows : List OutboxRow) :
    heldJobs (rows.map fun r => ⟨i, recordOf r, .claimed⟩) = rows.map (snapshot outlook) := by
  have hall : (rows.map fun r => (⟨i, recordOf r, .claimed⟩ : Job)).filter isOpen =
      rows.map fun r => ⟨i, recordOf r, .claimed⟩ := by
    refine List.filter_eq_self.2 fun job hjob => ?_
    obtain ⟨r, -, rfl⟩ := List.mem_map.1 hjob
    rfl
  rw [heldJobs, openClaims, hall, List.map_map]
  rfl

/-! ## Settling -/

section Settle

variable {scrubText : String → String} {t : OutboxTable} {record : OutboxRecord}
  {rest : List (Held String (Bool × Bool))} {now : Time}

theorem leased_iff {r : OutboxRow} : leased (leaseKeyOf record) r = true ↔
    (r.id = record.id ∧ r.attempts = record.attempts) ∧ undispatched r = true := by
  rw [leased, Bool.and_eq_true]
  refine and_congr_left fun _ => ?_
  rw [leasedBy, Bool.and_eq_true, decide_eq_true_eq, decide_eq_true_eq]
  rfl

theorem reachedBy_leased : ReachedBy [heldOf record] t (leased (leaseKeyOf record)) := by
  intro r _ h
  obtain ⟨⟨hid, hattempts⟩, -⟩ := leased_iff.1 h
  exact ⟨heldOf record, List.mem_singleton_self _, hid.symm, hattempts.symm⟩

/-- A row the record's lease reaches is as the record remembers it. -/
theorem outlook_of_leased (hrem : Remembered outlook t (heldOf record :: rest)) {r : OutboxRow}
    (hr : r ∈ t.rows) (h : leased (leaseKeyOf record) r = true) :
    isDead r = record.deadAt.isSome ∧
      isAnnouncement r = decide (record.eventType = OUTBOX_EVENT_DEAD) := by
  obtain ⟨⟨hid, hattempts⟩, -⟩ := leased_iff.1 h
  exact Prod.mk.inj (hrem.current (heldOf record) List.mem_cons_self r hr hid hattempts.symm)

theorem remembered_settle {f : OutboxRow → OutboxRow} (hf : ∀ r, Keyed.key (f r) = Keyed.key r)
    (hcounter : ∀ r, (f r).attempts = r.attempts)
    (hrem : Remembered outlook t (heldOf record :: rest)) :
    Remembered outlook (settle t (leaseKeyOf record) f hf).1 rest := by
  have hended : Remembered outlook t ([heldOf record] ++ rest) := hrem
  exact hended.settle hf hcounter reachedBy_leased

theorem remembered_release (hrem : Remembered outlook t (heldOf record :: rest)) :
    Remembered outlook (release t now (leaseKeyOf record)).1 rest := by
  have hended : Remembered outlook t ([heldOf record] ++ rest) := hrem
  exact hended.release (key_releasedSet now) (counter_releasedSet now) (fun _ => rfl) reachedBy_leased

theorem remembered_enqueue {held : List (Held String (Bool × Bool))} {r : OutboxRow}
    (hrem : Remembered outlook t held) : Remembered outlook (enqueue t r) held := by
  unfold enqueue
  cases hins : t.insert r with
  | none => exact hrem
  | some u => exact hrem.insert hins

theorem remembered_settleFailure {relay : Relay} {failed : FailedDelivery} {m : Moment}
    (hrem : Remembered outlook t (heldOf record :: rest)) :
    Remembered outlook (settleFailure relay t record failed m) rest := by
  have hfailed : ∀ failure, Remembered outlook
      (markFailed t m.now (leaseKeyOf record) failure).1 rest := fun failure =>
    remembered_settle (f := failedSet m.now failure) (fun _ => rfl) (fun _ => rfl) hrem
  simp only [settleFailure]
  split
  · exact hfailed _
  · exact remembered_enqueue (hfailed _)

theorem remembered_settleRecord {relay : Relay} {runs : List HandlerRun} {m : Moment}
    (hrem : Remembered outlook t (heldOf record :: rest)) :
    Remembered outlook (settleRecord scrubText relay t record runs m) rest := by
  simp only [settleRecord]
  split
  · exact remembered_settleFailure hrem
  · split
    · exact remembered_release hrem
    · split
      · exact remembered_settle (f := deliveredSet m.now _) (fun _ => rfl) (fun _ => rfl) hrem
      · exact remembered_settleFailure hrem

theorem find?_settle {lease : LeaseKey} {f : OutboxRow → OutboxRow}
    (hf : ∀ r, Keyed.key (f r) = Keyed.key r) (id : String) :
    (settle t lease f hf).1.find? id =
      (t.find? id).map fun r => if leased lease r then f r else r := by
  rw [settle, Table.find?_update]

/-- A failure kills the row it is written on if it is the last of a row that was
alive. -/
theorem dies_markFailed (hrem : Remembered outlook t (heldOf record :: rest))
    {failure : OutboxFailure} {id : String} :
    Dies t (markFailed t now (leaseKeyOf record) failure).1 id ∧ Announced t id ↔
      id = record.id ∧ (markFailed t now (leaseKeyOf record) failure).2 = true ∧
        failure.dead = true ∧ record.deadAt = none ∧ record.eventType ≠ OUTBOX_EVENT_DEAD := by
  have hafter : (markFailed t now (leaseKeyOf record) failure).1.find? id =
      (t.find? id).map fun r =>
        if leased (leaseKeyOf record) r then failedSet now failure r else r :=
    find?_settle (f := failedSet now failure) (fun _ => rfl) id
  have hwrote : (markFailed t now (leaseKeyOf record) failure).2 =
      t.rows.any (leased (leaseKeyOf record)) := rfl
  rw [Dies, Announced, hafter, hwrote, Option.map_map, List.any_eq_true]
  constructor
  · rintro ⟨⟨halive, hdead⟩, hkind⟩
    obtain ⟨r, hfind, halive⟩ := Option.map_eq_some_iff.1 halive
    obtain ⟨hr, hid⟩ := Table.find?_eq_some.1 hfind
    rw [hfind, Option.map_some, Option.some.injEq, Function.comp_apply] at hdead
    rw [hfind, Option.map_some, Option.some.injEq] at hkind
    by_cases hleased : leased (leaseKeyOf record) r = true
    · obtain ⟨hrdead, hrkind⟩ := outlook_of_leased hrem hr hleased
      rw [if_pos hleased] at hdead
      rw [halive] at hrdead
      rw [hkind] at hrkind
      refine ⟨hid.symm.trans (leased_iff.1 hleased).1.1, ⟨r, hr, hleased⟩, ?_,
        Option.isSome_eq_false_iff.1 hrdead.symm |> Option.isNone_iff_eq_none.1,
        of_decide_eq_false hrkind.symm⟩
      by_contra hnot
      simp [isDead, failedSet, hnot] at hdead halive
      rw [halive] at hdead
      cases hdead
    · rw [if_neg hleased, halive] at hdead
      cases hdead
  · rintro ⟨rfl, ⟨r, hr, hleased⟩, hlast, halive, hkind⟩
    obtain ⟨hrdead, hrkind⟩ := outlook_of_leased hrem hr hleased
    have hfind := Table.find?_eq_some.2 ⟨hr, (leased_iff.1 hleased).1.1⟩
    rw [hfind, Option.map_some, Option.map_some, Option.map_some, Function.comp_apply,
      if_pos hleased, hrdead, hrkind, halive]
    refine ⟨⟨rfl, ?_⟩, ?_⟩
    · simp [isDead, failedSet, hlast]
    · simp [hkind]

theorem announcements_markFailed {failure : OutboxFailure} {id : String} :
    announcements (markFailed t now (leaseKeyOf record) failure).1 id = announcements t id :=
  announcements_update (f := failedSet now failure) (fun _ => rfl) (fun _ => rfl)
    (fun _ => rfl) id

theorem find?_markFailed_eq_none {failure : OutboxFailure} {id : String}
    (h : t.find? id = none) :
    (markFailed t now (leaseKeyOf record) failure).1.find? id = none := by
  have hafter : (markFailed t now (leaseKeyOf record) failure).1.find? id =
      (t.find? id).map fun r =>
        if leased (leaseKeyOf record) r then failedSet now failure r else r :=
    find?_settle (f := failedSet now failure) (fun _ => rfl) id
  rw [h] at hafter
  exact hafter

/-- An insert under a fresh id is one more announcement, and touches no row. -/
theorem announcesDeaths_fresh {t' : OutboxTable} {r : OutboxRow} {about : String}
    (hfresh : t.find? r.id = none) (hfresh' : t'.find? r.id = none)
    (hkind : isAnnouncement r = true) (habout : r.aggregateId = about)
    (hsame : ∀ id, announcements t' id = announcements t id)
    (hdies : ∀ id, Dies t t' id ∧ Announced t id ↔ id = about) :
    AnnouncesDeaths t (enqueue t' r) := by
  unfold enqueue
  cases hins : t'.insert r with
  | none =>
      obtain ⟨r₀, hr₀⟩ := Table.insert_eq_none hins
      rw [show Keyed.key r = r.id from rfl, hfresh'] at hr₀
      cases hr₀
  | some u =>
      intro id
      have hiff : Dies t u id ∧ Announced t id ↔ about = id := by
        rw [eq_comm, ← hdies id]
        refine and_congr_left fun hann => ?_
        have hne : ¬ Keyed.key r = id := by
          rintro rfl
          rw [Announced, show Keyed.key r = r.id from rfl, hfresh] at hann
          cases hann
        rw [Dies, Dies, Table.find?_insert hins, if_neg hne]
      rw [Option.getD_some, announcements_insert hins, hsame, hkind, habout]
      simp only [hiff, Bool.true_and, decide_eq_true_eq]

theorem announcesDeaths_settleFailure {relay : Relay} {failed : FailedDelivery} {m : Moment}
    (hrem : Remembered outlook t (heldOf record :: rest)) (hfresh : t.find? m.eventId = none) :
    AnnouncesDeaths t (settleFailure relay t record failed m) := by
  simp only [settleFailure]
  split
  · next hquiet =>
      intro id
      rw [announcements_markFailed, if_neg]
      · rfl
      · rw [dies_markFailed hrem]
        rintro ⟨-, hwrote, hlast, halive, hkind⟩
        dsimp only at hlast
        rw [hwrote, hlast, halive] at hquiet
        simp [hkind] at hquiet
  · next hloud =>
      simp only [Bool.or_eq_true, Bool.not_eq_true', not_or, Bool.not_eq_false,
        Bool.and_eq_true, decide_eq_true_eq, Option.isSome_eq_false_iff,
        Option.isNone_iff_eq_none] at hloud
      obtain ⟨hwrote, ⟨hlast, halive⟩, hkind⟩ := hloud
      refine announcesDeaths_fresh hfresh (find?_markFailed_eq_none hfresh)
        rfl rfl (fun id => announcements_markFailed) fun id => ?_
      rw [dies_markFailed hrem]
      exact ⟨fun h => h.1, fun h => ⟨h, hwrote, hlast, halive, hkind⟩⟩

theorem announcesDeaths_settleRecord {relay : Relay} {runs : List HandlerRun} {m : Moment}
    (hrem : Remembered outlook t (heldOf record :: rest)) (hfresh : t.find? m.eventId = none) :
    AnnouncesDeaths t (settleRecord scrubText relay t record runs m) := by
  simp only [settleRecord]
  split
  · exact announcesDeaths_settleFailure hrem hfresh
  · split
    · exact announcesDeaths_update (f := releasedSet m.now) (key_releasedSet m.now)
        (fun _ => rfl) (fun _ => rfl) fun _ h => h
    · split
      · exact announcesDeaths_update (f := deliveredSet m.now _) (fun _ => rfl) (fun _ => rfl)
          (fun _ => rfl) fun _ h => Bool.noConfusion h
      · exact announcesDeaths_settleFailure hrem hfresh

end Settle

/-! ## Growing old -/

def isGone (r : OutboxRow) : Bool := isDead r || r.dispatchedAt.isSome

/-- No row comes back from death or dispatch, and only a row that is neither
dies. -/
def Ages (t t' : OutboxTable) : Prop :=
  ∀ id r, t.find? id = some r → ∃ r', t'.find? id = some r' ∧
    (isGone r = true → isGone r' = true) ∧ (isDead r = false → isDead r' = true → isGone r = false)

section Ages

variable {scrubText : String → String} {t t' : OutboxTable}

theorem ages_refl (t : OutboxTable) : Ages t t :=
  fun _ r hr => ⟨r, hr, id, fun halive hdead => absurd hdead (by rw [halive]; nofun)⟩

theorem ages_update {p : OutboxRow → Bool} {f : OutboxRow → OutboxRow}
    (hf : ∀ r, Keyed.key (f r) = Keyed.key r)
    (hgone : ∀ r, p r = true → isGone r = true → isGone (f r) = true)
    (hdead : ∀ r, p r = true → isDead r = false → isDead (f r) = true → isGone r = false) :
    Ages t (t.update p f hf) := by
  intro id r hr
  refine ⟨if p r then f r else r, by rw [Table.find?_update, hr, Option.map_some], ?_⟩
  by_cases hp : p r = true
  · rw [if_pos hp]
    exact ⟨hgone r hp, hdead r hp⟩
  · rw [if_neg hp]
    exact ⟨fun h => h, fun halive hdead => absurd hdead (by rw [halive]; nofun)⟩

theorem ages_enqueue {r : OutboxRow} (h : Ages t t') : Ages t (enqueue t' r) := by
  unfold enqueue
  cases hins : t'.insert r with
  | none => exact h
  | some u =>
      intro id r₀ hr₀
      obtain ⟨r', hr', hrest⟩ := h id r₀ hr₀
      obtain ⟨hmem, hid⟩ := Table.find?_eq_some.1 hr'
      have hne : ¬ Keyed.key r = id := fun heq =>
        Table.insert_fresh hins r' hmem (hid.trans heq.symm)
      exact ⟨r', by rw [Option.getD_some, Table.find?_insert hins, if_neg hne, hr'], hrest⟩

/-- A row that looks the same is as old as it was. -/
theorem ages_same {p : OutboxRow → Bool} {f : OutboxRow → OutboxRow}
    (hf : ∀ r, Keyed.key (f r) = Keyed.key r) (hdead : ∀ r, isDead (f r) = isDead r)
    (hgone : ∀ r, isGone (f r) = isGone r) : Ages t (t.update p f hf) :=
  ages_update hf (fun r _ h => (hgone r).trans h) fun r _ halive h => by
    rw [hdead, halive] at h
    cases h

theorem gone_of_leased {lease : LeaseKey} {r : OutboxRow} (h : leased lease r = true) :
    isGone r = isDead r := by
  obtain ⟨-, hopen⟩ := Bool.and_eq_true_iff.1 h
  rw [undispatched, Option.isNone_iff_eq_none] at hopen
  rw [isGone, hopen, Option.isSome_none, Bool.or_false]

theorem ages_markFailed {record : OutboxRecord} {failure : OutboxFailure} {now : Time} :
    Ages t (markFailed t now (leaseKeyOf record) failure).1 := by
  refine ages_update (f := failedSet now failure) (fun _ => rfl) (fun r hp h => ?_)
    fun r hp halive _ => (gone_of_leased hp).trans halive
  rw [gone_of_leased hp] at h
  obtain ⟨d, hd⟩ := Option.isSome_iff_exists.1 h
  rw [isGone, isDead, failedSet, hd]
  split
  · rfl
  · rfl

theorem ages_settleFailure {relay : Relay} {record : OutboxRecord} {failed : FailedDelivery}
    {m : Moment} : Ages t (settleFailure relay t record failed m) := by
  simp only [settleFailure]
  split
  · exact ages_markFailed
  · exact ages_enqueue ages_markFailed

theorem ages_settleRecord {relay : Relay} {record : OutboxRecord} {runs : List HandlerRun}
    {m : Moment} : Ages t (settleRecord scrubText relay t record runs m) := by
  simp only [settleRecord]
  split
  · exact ages_settleFailure
  · split
    · exact ages_same (f := releasedSet m.now) (key_releasedSet m.now) (fun _ => rfl)
        fun _ => rfl
    · split
      · exact ages_update (f := deliveredSet m.now _) (fun _ => rfl)
          (fun _ _ _ => Bool.or_true _) fun _ _ _ h => Bool.noConfusion h
      · exact ages_settleFailure

end Ages

/-! ## A step -/

/-- A drawn id is free, and only relays enqueue announcements. -/
def Announceable (s : RelayState) : RelayEvent → Prop
  | .settle _ _ _ _ eventId => s.table.find? eventId = none
  | .enqueue r => isAnnouncement r = false
  | _ => True

instance (s : RelayState) : ∀ e, Decidable (Announceable s e)
  | .settle _ _ _ _ eventId => inferInstanceAs (Decidable (s.table.find? eventId = none))
  | .enqueue r => inferInstanceAs (Decidable (isAnnouncement r = false))
  | .claim .. | .start _ | .giveBack _ | .abandon _ | .requeueDead .. | .wait _ => isTrue trivial

section Run

variable {scrubText : String → String} {relays : Nat → Relay} {s s' : RelayState}

theorem remembered_over {j : Nat} {job : Job} {t : OutboxTable}
    (h : Remembered outlook t (heldJobs s.jobs)) (hjob : s.jobs[j]? = some job)
    (hphase : job.phase ≠ .over) :
    Remembered outlook t (heldOf job.record :: heldJobs (s.withPhase j .over).jobs) := by
  have hclose : (heldJobs s.jobs).Perm
      (heldOf job.record :: heldJobs (s.withPhase j .over).jobs) :=
    openClaims_modify_close hjob (decide_eq_true hphase) rfl
  exact h.subperm hclose.symm.subperm

theorem remembered_step {e : RelayEvent} (h : Remembered outlook s.table (heldJobs s.jobs))
    (hs : relayStep scrubText relays s e = some s') :
    Remembered outlook s'.table (heldJobs s'.jobs) := by
  cases e with
  | claim i locked =>
      cases hs
      have hheld := h.claim (claimPicked s.table s.clock locked
          ⟨claimLimitOf (relays i).options, (relays i).options.eventTypes,
            (relays i).options.leaseSeconds⟩)
        (key_claimedSet s.clock (relays i).options.leaseSeconds)
        (counter_claimedSet s.clock (relays i).options.leaseSeconds) fun _ => rfl
      refine hheld.subperm ?_
      rw [heldJobs, openClaims_append]
      refine (List.subperm_append_left _).2 ?_
      show (heldJobs _).Subperm _
      rw [heldJobs_claimed]
      exact ((orderBy_perm _ _).map _).subperm
  | start j =>
      obtain ⟨job, hjob, hs⟩ := Option.bind_eq_some_iff.1 hs
      cases hs
      obtain ⟨hjob, hphase⟩ := jobIn_eq_some hjob
      have hopen : isOpen job = true := decide_eq_true (by rw [hphase]; nofun)
      have hsame : heldJobs (s.withPhase j .running).jobs = heldJobs s.jobs :=
        openClaims_modify_same hjob hopen.symm rfl
      show Remembered outlook s.table (heldJobs (s.withPhase j .running).jobs)
      rw [hsame]
      exact h
  | settle j runs doneAt random eventId =>
      obtain ⟨job, hjob, hphase, -, rfl⟩ := settle_eq_some hs
      exact remembered_settleRecord (remembered_over h hjob (by rw [hphase]; nofun))
  | giveBack j =>
      obtain ⟨job, hjob, hs⟩ := Option.bind_eq_some_iff.1 hs
      cases hs
      obtain ⟨hjob, hphase⟩ := jobIn_eq_some hjob
      exact remembered_release (remembered_over h hjob (by rw [hphase]; nofun))
  | abandon j =>
      obtain ⟨job, -, hs⟩ := Option.bind_eq_some_iff.1 hs
      cases hs
      exact h.subperm (openClaims_modify_sublist (fun _ => rfl) j).subperm
  | requeueDead ids leaseSeconds =>
      cases hs
      exact h.touch (f := fun r => { r with nextAttemptAt := some s.clock }) (fun _ => rfl)
        (fun _ => rfl) fun _ _ _ => rfl
  | enqueue r =>
      cases hs
      exact remembered_enqueue h
  | wait n =>
      cases hs
      exact h

theorem announcesDeaths_step {e : RelayEvent} (h : Remembered outlook s.table (heldJobs s.jobs))
    (he : Announceable s e) (hs : relayStep scrubText relays s e = some s') :
    AnnouncesDeaths s.table s'.table := by
  cases e with
  | claim i locked =>
      cases hs
      exact announcesDeaths_update (f := claimedSet s.clock (relays i).options.leaseSeconds)
        (key_claimedSet _ _) (fun _ => rfl) (fun _ => rfl) fun _ h => h
  | start j =>
      obtain ⟨job, -, hs⟩ := Option.bind_eq_some_iff.1 hs
      cases hs
      exact announcesDeaths_refl s.table
  | settle j runs doneAt random eventId =>
      obtain ⟨job, hjob, hphase, -, rfl⟩ := settle_eq_some hs
      exact announcesDeaths_settleRecord (remembered_over h hjob (by rw [hphase]; nofun)) he
  | giveBack j =>
      obtain ⟨job, -, hs⟩ := Option.bind_eq_some_iff.1 hs
      cases hs
      exact announcesDeaths_update (f := releasedSet s.clock) (key_releasedSet s.clock)
        (fun _ => rfl) (fun _ => rfl) fun _ h => h
  | abandon j =>
      obtain ⟨job, -, hs⟩ := Option.bind_eq_some_iff.1 hs
      cases hs
      exact announcesDeaths_refl s.table
  | requeueDead ids leaseSeconds =>
      cases hs
      exact announcesDeaths_update (f := fun r => { r with nextAttemptAt := some s.clock })
        (fun _ => rfl) (fun _ => rfl) (fun _ => rfl) fun _ h => h
  | enqueue r =>
      cases hs
      exact announcesDeaths_enqueue he
  | wait n =>
      cases hs
      exact announcesDeaths_refl s.table

theorem ages_step {e : RelayEvent} (hs : relayStep scrubText relays s e = some s') :
    Ages s.table s'.table := by
  cases e with
  | claim i locked =>
      cases hs
      exact ages_same (f := claimedSet s.clock (relays i).options.leaseSeconds)
        (key_claimedSet _ _) (fun _ => rfl) fun _ => rfl
  | start j =>
      obtain ⟨job, -, hs⟩ := Option.bind_eq_some_iff.1 hs
      cases hs
      exact ages_refl s.table
  | settle j runs doneAt random eventId =>
      obtain ⟨job, -, -, -, rfl⟩ := settle_eq_some hs
      exact ages_settleRecord
  | giveBack j =>
      obtain ⟨job, -, hs⟩ := Option.bind_eq_some_iff.1 hs
      cases hs
      exact ages_same (f := releasedSet s.clock) (key_releasedSet s.clock) (fun _ => rfl)
        fun _ => rfl
  | abandon j =>
      obtain ⟨job, -, hs⟩ := Option.bind_eq_some_iff.1 hs
      cases hs
      exact ages_refl s.table
  | requeueDead ids leaseSeconds =>
      cases hs
      exact ages_same (f := fun r => { r with nextAttemptAt := some s.clock }) (fun _ => rfl)
        (fun _ => rfl) fun _ => rfl
  | enqueue r =>
      cases hs
      exact ages_enqueue (ages_refl s.table)
  | wait n =>
      cases hs
      exact ages_refl s.table

/-! ## The run -/

def GoneIn (s : RelayState) (id : String) : Prop :=
  ∃ r, s.table.find? id = some r ∧ isGone r = true

theorem gone_step {e : RelayEvent} {id : String}
    (hs : relayStep scrubText relays s e = some s') (h : GoneIn s id) : GoneIn s' id := by
  obtain ⟨r, hr, hgone⟩ := h
  obtain ⟨r', hr', hstays, -⟩ := ages_step hs id r hr
  exact ⟨r', hr', hstays hgone⟩

theorem announcements_step {e : RelayEvent} {id : String}
    (hrem : Remembered outlook s.table (heldJobs s.jobs)) (he : Announceable s e)
    (hs : relayStep scrubText relays s e = some s') :
    announcements s'.table id = announcements s.table id ∨
      ¬ GoneIn s id ∧ GoneIn s' id ∧
        announcements s'.table id = announcements s.table id + 1 := by
  rw [announcesDeaths_step hrem he hs id]
  split
  · next hdies =>
      obtain ⟨r, hr, halive⟩ := Option.map_eq_some_iff.1 hdies.1.1
      obtain ⟨r', hr', -, honly⟩ := ages_step hs id r hr
      have hdead := hdies.1.2
      rw [hr', Option.map_some, Option.some.injEq] at hdead
      have hopen := honly halive hdead
      refine .inr ⟨?_, ⟨r', hr', by rw [isGone, hdead, Bool.true_or]⟩, rfl⟩
      rintro ⟨r₀, hr₀, hgone⟩
      rw [hr] at hr₀
      cases hr₀
      rw [hopen] at hgone
      cases hgone
  · exact .inl rfl

/-- In a run of any number of relays, an event is announced in the step in
which it dies and in no other, so once at most, and an announcement never. -/
theorem death_announced_once {es : List RelayEvent} (hjobs : s.jobs = [])
    (hmeets : Meets (relayStep scrubText relays) Announceable s es)
    (h : exec (relayStep scrubText relays) s es = some s') :
    (∀ id, announcements s'.table id ≤ announcements s.table id + 1) ∧
      ∀ e v, Announceable s' e → relayStep scrubText relays s' e = some v →
        AnnouncesDeaths s'.table v.table := by
  have hinit : Remembered outlook s.table (heldJobs s.jobs) := by
    rw [hjobs]
    exact Remembered.nil _ _
  have hrem := runs_inv_meets (C := Announceable) (fun _ _ _ hi _ hs => remembered_step hi hs)
    hinit hmeets h
  refine ⟨fun id => ?_, fun e v he hs => announcesDeaths_step hrem he hs⟩
  exact runs_once (fun _ _ _ hi _ hs => remembered_step hi hs)
    (fun _ _ _ _ _ hs => gone_step hs) (fun _ _ _ hi he hs => announcements_step hi he hs)
    hinit hmeets h

end Run

/-- A relay that gives up after one attempt. -/
def tiredRelay : Relay where
  options := ⟨["order.placed"], 10, 1, 60, 3600, 4, 5⟩
  dispatcher := (orderRelay "mail" mail_named).dispatcher

def orderDies : List RelayEvent := orderTaken ++ [.settle 0 [.failed "down"] "now" 0 "d1"]

theorem death_announced_order :
    ∃ s, exec (relayStep id fun _ => tiredRelay) orderState orderDies = some s ∧
      announcements s.table "e1" = 1 ∧
      (∀ id, announcements s.table id ≤ announcements orderState.table id + 1) ∧
      ∀ e v, Announceable s e → relayStep id (fun _ => tiredRelay) s e = some v →
        AnnouncesDeaths s.table v.table := by
  have hrun : (exec (relayStep id fun _ => tiredRelay) orderState orderDies).map
      (fun s => announcements s.table "e1") = some 1 := by
    decide
  obtain ⟨s, hs, hone⟩ := Option.map_eq_some_iff.1 hrun
  have htest : ∀ s e, decide (Announceable s e) = true → Announceable s e :=
    fun _ _ => of_decide_eq_true
  exact ⟨s, hs, hone, death_announced_once rfl (meets_of_passes htest (by decide)) hs⟩

end CleanStack.Outbox
