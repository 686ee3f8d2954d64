import CleanStack.Drizzle.Lease

/-!
# The Stripe event table

`stripe_event` and the statements of its store that write it. A row remembers
that an event arrived and what became of it, and `replayClaimedAt` is the claim
of whoever replays it: a date alone, which says when the claim was taken and not
by whom.
-/

namespace CleanStack.Billing

open CleanStack.Lib CleanStack.Drizzle

inductive StripeEventStatus
  | received
  | failed
  deriving DecidableEq, Repr

structure StripeEventRow where
  id : String
  type : String
  receivedAt : Time
  status : StripeEventStatus
  lastError : Option String
  replayedAt : Option Time
  replayClaimedAt : Option Time

instance : Keyed StripeEventRow String := ⟨fun r => r.id⟩

abbrev StripeEventTable := Table StripeEventRow

def PROCESSED_STRIPE_EVENT_TYPES : List String :=
  ["checkout.session.completed", "customer.subscription.created",
    "customer.subscription.updated", "customer.subscription.deleted", "invoice.payment_failed"]

def isReplayableStripeEvent (type : String) : Bool := PROCESSED_STRIPE_EVENT_TYPES.contains type

def outcomeSet (lastError : Option String) (r : StripeEventRow) : StripeEventRow :=
  { r with
    status := if lastError.isSome then .failed else .received
    lastError := lastError }

theorem outcomeSet_id (lastError : Option String) (r : StripeEventRow) :
    Keyed.key (outcomeSet lastError r) = Keyed.key r :=
  rfl

def recordDelivery (t : StripeEventTable) (now : Time) (id type : String)
    (lastError : Option String) : StripeEventTable :=
  t.upsert
    (outcomeSet lastError
      { id := id, type := type, receivedAt := now, status := .received, lastError := none
        replayedAt := none, replayClaimedAt := none })
    (outcomeSet lastError) (outcomeSet_id lastError)

def replayClaimSet (claimedAt : Option Time) (r : StripeEventRow) : StripeEventRow :=
  { r with replayClaimedAt := claimedAt }

theorem replayClaimSet_id (claimedAt : Option Time) (r : StripeEventRow) :
    Keyed.key (replayClaimSet claimedAt r) = Keyed.key r :=
  rfl

/-- `replay_claimed_at IS NULL OR replay_claimed_at < clock_timestamp() - leaseSeconds`. -/
def claimable (now : Time) (leaseSeconds : Nat) (r : StripeEventRow) : Bool :=
  match r.replayClaimedAt with
  | none => true
  | some claimedAt => secondsFromNow claimedAt leaseSeconds < now

def claimReplay (t : StripeEventTable) (now : Time) (id : String) (leaseSeconds : Nat) :
    StripeEventTable × Bool :=
  (t.update (fun r => r.id = id && claimable now leaseSeconds r)
      (replayClaimSet (some now)) (replayClaimSet_id (some now)),
    t.rows.any fun r => r.id = id && claimable now leaseSeconds r)

def releaseReplay (t : StripeEventTable) (id : String) : StripeEventTable :=
  t.update (fun r => r.id = id) (replayClaimSet none) (replayClaimSet_id none)

def markReplayed (t : StripeEventTable) (now : Time) (id : String) : StripeEventTable :=
  t.update (fun r => r.id = id) (fun r => { r with replayedAt := some now }) fun _ => rfl

/-! ## What the statements do to the claim of an event -/

def claimOf (t : StripeEventTable) (id : String) : Option Time :=
  (t.find? id).bind StripeEventRow.replayClaimedAt

variable {t : StripeEventTable} {now : Time} {id other : String} {leaseSeconds : Nat}

/-- A claim is made on a row that is there, and finds no claim or one that has run out. -/
theorem claimReplay_snd (h : (claimReplay t now id leaseSeconds).2 = true) :
    ∃ r, t.find? id = some r ∧ claimable now leaseSeconds r = true := by
  obtain ⟨r, hr, hp⟩ := List.any_eq_true.1 h
  rw [Bool.and_eq_true, decide_eq_true_eq] at hp
  exact ⟨r, Table.find?_eq_some.2 ⟨hr, hp.1⟩, hp.2⟩

theorem claimOf_claimReplay (h : (claimReplay t now id leaseSeconds).2 = true) :
    claimOf (claimReplay t now id leaseSeconds).1 id = some now := by
  obtain ⟨r, hr, hclaimable⟩ := claimReplay_snd h
  have hid : r.id = id := (Table.find?_eq_some.1 hr).2
  rw [claimOf, claimReplay, Table.find?_update, hr, Option.map_some, if_pos]
  · rfl
  · rw [Bool.and_eq_true, decide_eq_true_eq]
    exact ⟨hid, hclaimable⟩

/-- A statement that sets the rows of one event leaves the claims of the others. -/
theorem claimOf_update {p : StripeEventRow → Bool} (f : StripeEventRow → StripeEventRow)
    (hf : ∀ r, Keyed.key (f r) = Keyed.key r) (hp : ∀ r, p r = true → r.id = id)
    (hother : other ≠ id) : claimOf (t.update p f hf) other = claimOf t other := by
  rw [claimOf, claimOf, Table.find?_update]
  cases hfind : t.find? other with
  | none => rfl
  | some r =>
      have hnot : ¬ p r = true := fun h =>
        hother ((Table.find?_eq_some.1 hfind).2.symm.trans (hp r h))
      rw [Option.map_some, if_neg hnot]

theorem claimOf_claimReplay_other (hother : other ≠ id) :
    claimOf (claimReplay t now id leaseSeconds).1 other = claimOf t other := by
  refine claimOf_update _ (replayClaimSet_id (some now)) (fun r hr => ?_) hother
  rw [Bool.and_eq_true, decide_eq_true_eq] at hr
  exact hr.1

theorem claimOf_releaseReplay_other (hother : other ≠ id) :
    claimOf (releaseReplay t id) other = claimOf t other :=
  claimOf_update _ (replayClaimSet_id none) (fun _ hr => of_decide_eq_true hr) hother

theorem claimOf_releaseReplay : claimOf (releaseReplay t id) id = none := by
  rw [claimOf, releaseReplay, Table.find?_update]
  cases hfind : t.find? id with
  | none => rfl
  | some r =>
      rw [Option.map_some, if_pos]
      · rfl
      · exact decide_eq_true (Table.find?_eq_some.1 hfind).2

theorem claimOf_markReplayed : claimOf (markReplayed t now id) other = claimOf t other := by
  rw [claimOf, claimOf, markReplayed, Table.find?_update]
  cases t.find? other with
  | none => rfl
  | some r =>
      rw [Option.map_some, Option.bind_some, Option.bind_some]
      split
      · rfl
      · rfl

theorem claimOf_recordDelivery {type : String} {lastError : Option String} :
    claimOf (recordDelivery t now id type lastError) other = claimOf t other := by
  rw [claimOf, claimOf, recordDelivery, Table.find?_upsert]
  split
  · next hk =>
      rw [show id = other from hk]
      cases t.find? other with
      | none => rfl
      | some r => rfl
  · rfl

end CleanStack.Billing
