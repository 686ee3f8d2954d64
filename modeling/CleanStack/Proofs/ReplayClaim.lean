import CleanStack.Admin.StripeReplay
import CleanStack.Lib.TimedLease

/-!
# One redelivery at a time, for the length of a claim

The claim of an event is a lease that ends by the clock, and a caller that runs
past its end goes on undisturbed. What is promised is only that for the length
of a claim a redelivery has the event to itself.

The row keeps when the claim was taken and not by whom. A caller whose claim
has long been taken over frees the event all the same when its redelivery fails,
and whoever comes next starts beside the successor: `late_release_frees_claim`.
With nothing of that kind, and nobody who starts long after claiming, the claim
does what it is for.
-/

namespace CleanStack.Admin

open CleanStack.Lib CleanStack.Drizzle CleanStack.Billing
open CleanStack.Lib.TimedLease (Named Free)

/-- The end of what starts at an instant and lasts as long as a claim. -/
def endOf (since : Time) : Time := secondsFromNow since REPLAY_CLAIM_SECONDS

/-- A redelivery that starts finds none of the event running that started less
than the length of a claim ago. -/
def StartsAlone (s : ReplayState) : ReplayEvent → Prop
  | .redeliver i => ∀ run claimedAt, s.runs[i]? = some run → run.phase = .claimed claimedAt →
      ∀ j other startedAt, j ≠ i → s.runs[j]? = some other → other.eventId = run.eventId →
        other.phase.startedAt? = some startedAt → endOf startedAt ≤ s.clock
  | _ => True

/-- A caller whose claim has run out leaves the claim of another where it is. -/
def SparesSuccessor (s : ReplayState) : ReplayEvent → Prop
  | .settle i rollback => ∀ run claimedAt, s.runs[i]? = some run →
      run.phase.claimedAt? = some claimedAt → endOf claimedAt < s.clock →
      ∀ j other theirs, j ≠ i → s.runs[j]? = some other → other.eventId = run.eventId →
        other.phase.claimedAt? = some theirs → claimOf s.events run.eventId = some theirs →
        ∀ t, replayStep s (.settle i rollback) = some t →
          claimOf t.events run.eventId = some theirs
  | _ => True

/-- A caller starts and frees under the claim it took, and a claim that has run
out is taken over only when the redelivery it was taken for has been running for
as long. -/
def Undisturbed (s : ReplayState) : ReplayEvent → Prop
  | .claim i => ∀ run, s.runs[i]? = some run → ∀ (j : Nat) other claimedAt startedAt,
      s.runs[j]? = some other → other.eventId = run.eventId →
      other.phase = .redelivering claimedAt startedAt → endOf claimedAt < s.clock →
      endOf startedAt ≤ s.clock
  | .redeliver i => ∀ run claimedAt, s.runs[i]? = some run → run.phase = .claimed claimedAt →
      claimOf s.events run.eventId = some claimedAt
  | .settle i none => ∀ run claimedAt reason, s.runs[i]? = some run →
      run.phase = .judged claimedAt (some reason) →
      claimOf s.events run.eventId = some claimedAt
  | _ => True

/-! ## The claims -/

/-- A run for the event has taken a claim at the instant and not settled. -/
def HoldsClaim (s : ReplayState) (id : String) (claimedAt : Time) : Prop :=
  ∃ (i : Nat) (run : ReplayRun), s.runs[i]? = some run ∧ run.eventId = id ∧
    run.phase.claimedAt? = some claimedAt

structure Claims (s : ReplayState) : Prop where
  named : ∀ id, Named endOf s.clock (claimOf s.events id) (HoldsClaim s id)
  distinct : ∀ (i j : Nat) ri rj claimedAt, s.runs[i]? = some ri → s.runs[j]? = some rj →
    ri.eventId = rj.eventId → ri.phase.claimedAt? = some claimedAt →
    rj.phase.claimedAt? = some claimedAt → i = j
  ready : ∀ (i : Nat) ri claimedAt, s.runs[i]? = some ri → ri.phase = .claimed claimedAt →
    claimOf s.events ri.eventId = some claimedAt →
    ∀ (j : Nat) rj startedAt, s.runs[j]? = some rj → rj.eventId = ri.eventId →
      rj.phase.startedAt? = some startedAt → endOf startedAt ≤ s.clock

section Step

variable {s t : ReplayState} {e : ReplayEvent} {i j : Nat} {run r r' : ReplayRun}
  {phase : ReplayPhase}

theorem claimed_of_started {startedAt : Time} (h : phase.startedAt? = some startedAt) :
    ∃ claimedAt, phase = .redelivering claimedAt startedAt := by
  cases phase with
  | redelivering claimedAt startedAt' =>
      cases h
      exact ⟨claimedAt, rfl⟩
  | _ => cases h

theorem runs_setRun (h : (s.setRun i run phase).runs[j]? = some r') :
    (j = i ∧ r' = { run with phase }) ∨ (j ≠ i ∧ s.runs[j]? = some r') :=
  getElem?_set_cases (show (s.runs.set i _)[j]? = some r' from h)

theorem runs_append {runs : List ReplayRun} (h : (runs ++ [run])[j]? = some r') :
    runs[j]? = some r' ∨ r' = run := by
  rw [List.getElem?_append] at h
  split at h
  · exact .inl h
  · exact .inr (List.mem_singleton.1 (List.mem_of_getElem? h))

/-- A run after a step has a claim only if it had it before, and is then in the
phase it was in, or past its redelivery. -/
def Goes (s t : ReplayState) : Prop :=
  ∀ (j : Nat) r', t.runs[j]? = some r' → r'.phase.claimedAt? = none ∨
    ∃ r, s.runs[j]? = some r ∧ r'.eventId = r.eventId ∧
      r'.phase.claimedAt? = r.phase.claimedAt? ∧
      (r'.phase = r.phase ∨ r'.phase.startedAt? = none ∧ ∀ c, r'.phase ≠ .claimed c)

theorem Goes.refl (s : ReplayState) : Goes s s := fun _ r hr =>
  .inr ⟨r, hr, rfl, rfl, .inl rfl⟩

theorem Goes.setRun (hrun : s.runs[i]? = some run)
    (hphase : phase.claimedAt? = none ∨ phase.claimedAt? = run.phase.claimedAt? ∧
      phase.startedAt? = none ∧ ∀ c, phase ≠ .claimed c) : Goes s (s.setRun i run phase) := by
  intro j r' hr'
  rcases runs_setRun hr' with ⟨rfl, rfl⟩ | ⟨-, hold⟩
  · rcases hphase with hnone | ⟨hsame, hnot⟩
    · exact .inl hnone
    · exact .inr ⟨run, hrun, rfl, hsame, .inr hnot⟩
  · exact .inr ⟨r', hold, rfl, rfl, .inl rfl⟩

theorem Goes.held {id : String} {claimedAt : Time} (h : Goes s t) (hheld : HoldsClaim t id claimedAt) :
    HoldsClaim s id claimedAt := by
  obtain ⟨j, r', hr', hid, hat⟩ := hheld
  rcases h j r' hr' with hnone | ⟨r, hr, hsame, hclaim, -⟩
  · rw [hnone] at hat
    cases hat
  · exact ⟨j, r, hr, hsame.symm.trans hid, hclaim.symm.trans hat⟩

theorem Claims.goes (hs : Claims s) (h : Goes s t) (hclock : s.clock ≤ t.clock)
    (hnamed : ∀ id, Named endOf t.clock (claimOf t.events id) (HoldsClaim t id))
    (hclaims : ∀ id c, claimOf t.events id = some c → claimOf s.events id = some c) :
    Claims t where
  named := hnamed
  distinct := by
    intro i j ri rj claimedAt hri hrj hid hci hcj
    rcases h i ri hri with hnone | ⟨ri₀, hri₀, hidi, hsamei, -⟩
    · rw [hnone] at hci
      cases hci
    · rcases h j rj hrj with hnone | ⟨rj₀, hrj₀, hidj, hsamej, -⟩
      · rw [hnone] at hcj
        cases hcj
      · exact hs.distinct i j ri₀ rj₀ claimedAt hri₀ hrj₀ (hidi.symm.trans (hid.trans hidj))
          (hsamei.symm.trans hci) (hsamej.symm.trans hcj)
  ready := by
    intro i ri claimedAt hri hphase hclaim j rj startedAt hrj hid hstarted
    replace hclaim := hclaims ri.eventId claimedAt hclaim
    rcases h i ri hri with hnone | ⟨ri₀, hri₀, hidi, -, hsamei | ⟨-, hnot⟩⟩
    · rw [hphase] at hnone
      cases hnone
    · rcases h j rj hrj with hnone | ⟨rj₀, hrj₀, hidj, -, hsamej | ⟨hnot, -⟩⟩
      · obtain ⟨c, hc⟩ := claimed_of_started hstarted
        rw [hc] at hnone
        cases hnone
      · rw [hsamei] at hphase
        rw [hidi] at hclaim
        rw [hsamej] at hstarted
        have hready := hs.ready i ri₀ claimedAt hri₀ hphase hclaim j rj₀ startedAt hrj₀
          (hidj.symm.trans (hid.trans hidi)) hstarted
        exact Nat.le_trans hready hclock
      · rw [hnot] at hstarted
        cases hstarted
    · exact absurd hphase (hnot claimedAt)

/-- No claim is taken or given back, though some of their holders may be over. -/
theorem Claims.kept (hs : Claims s) (h : Goes s t) (hclock : s.clock ≤ t.clock)
    (hclaims : ∀ id, claimOf t.events id = claimOf s.events id) : Claims t := by
  refine hs.goes h hclock (fun id => ?_) fun id c hc => hclaims id ▸ hc
  rw [hclaims]
  exact ((hs.named id).later hclock).fewer fun _ => h.held

/-- A caller that frees the event gives back its own claim and no other. -/
theorem Claims.released (hs : Claims s) (h : Goes s t) (hclock : t.clock = s.clock)
    (hrun : s.runs[i]? = some run) {claimedAt : Time}
    (hphase : run.phase.claimedAt? = some claimedAt)
    (hown : claimOf s.events run.eventId = some claimedAt)
    (hover : ∀ r', t.runs[i]? = some r' → r'.phase.claimedAt? = none)
    (hfreed : claimOf t.events run.eventId = none)
    (hother : ∀ id, id ≠ run.eventId → claimOf t.events id = claimOf s.events id) :
    Claims t := by
  refine hs.goes h hclock.ge (fun id => ?_) fun id c hc => ?_
  · by_cases hid : id = run.eventId
    · subst hid
      rw [hfreed, hclock]
      refine (hs.named run.eventId).give (fun _ => h.held) fun c hheld hc => ?_
      -- Whoever holds the claim on the row is the caller itself, which is over.
      obtain ⟨j, r', hr', hsame, hat⟩ := hheld
      rcases h j r' hr' with hnone | ⟨r, hr, hidr, hclaim, -⟩
      · rw [hnone] at hat
        cases hat
      · rw [hown] at hc
        have hij : i = j := hs.distinct i j run r c hrun hr (hsame.symm.trans hidr)
          (hphase.trans hc) (hclaim.symm.trans hat)
        rw [hover r' (hij ▸ hr')] at hat
        cases hat
    · rw [hother id hid, hclock]
      exact (hs.named id).fewer fun _ => h.held
  · by_cases hid : id = run.eventId
    · subst hid
      rw [hfreed] at hc
      cases hc
    · rw [hother id hid] at hc
      exact hc

/-- A claim is taken only once every other caller that took one is past its end. -/
theorem Claims.taken (hs : Claims s) (hrun : s.runs[i]? = some run)
    (hclaim : (claimReplay s.events s.clock run.eventId REPLAY_CLAIM_SECONDS).2 = true)
    (hlong : ∀ (j : Nat) r claimedAt startedAt, s.runs[j]? = some r → r.eventId = run.eventId →
      r.phase = .redelivering claimedAt startedAt → endOf claimedAt < s.clock →
      endOf startedAt ≤ s.clock) :
    Claims { s.setRun i run (.claimed s.clock) with
      events := (claimReplay s.events s.clock run.eventId REPLAY_CLAIM_SECONDS).1 } := by
  have hfree : Free endOf s.clock (claimOf s.events run.eventId) := by
    obtain ⟨row, hrow, hclaimable⟩ := claimReplay_snd hclaim
    intro claimedAt hat
    rw [claimOf, hrow, Option.bind_some] at hat
    rw [Billing.claimable, hat] at hclaimable
    exact of_decide_eq_true hclaimable
  have hended : ∀ (j : Nat) r claimedAt, s.runs[j]? = some r → r.eventId = run.eventId →
      r.phase.claimedAt? = some claimedAt → endOf claimedAt < s.clock :=
    fun j r claimedAt hr hid hat =>
      (hs.named run.eventId).ended hfree ⟨j, r, hr, hid, hat⟩
  have hself : ∀ c, endOf c < s.clock → c ≠ s.clock := by
    intro c hc
    have hle : c ≤ endOf c := Nat.le_add_right _ _
    exact fun h => absurd hc (by rw [← h]; exact Nat.not_lt.2 hle)
  refine ⟨fun id => ?_, ?_, ?_⟩
  · by_cases hid : id = run.eventId
    · subst hid
      show Named endOf s.clock (claimOf (claimReplay s.events s.clock run.eventId
        REPLAY_CLAIM_SECONDS).1 run.eventId) _
      rw [claimOf_claimReplay hclaim]
      refine (hs.named run.eventId).take hfree fun c hheld => ?_
      obtain ⟨j, r', hr', hsame, hat⟩ := hheld
      rcases runs_setRun hr' with ⟨-, rfl⟩ | ⟨-, hold⟩
      · cases hat
        exact .inr rfl
      · exact .inl ⟨j, r', hold, hsame, hat⟩
    · show Named endOf s.clock (claimOf (claimReplay s.events s.clock run.eventId
        REPLAY_CLAIM_SECONDS).1 id) _
      rw [claimOf_claimReplay_other hid]
      refine (hs.named id).fewer fun c hheld => ?_
      obtain ⟨j, r', hr', hsame, hat⟩ := hheld
      rcases runs_setRun hr' with ⟨-, rfl⟩ | ⟨-, hold⟩
      · exact absurd hsame.symm hid
      · exact ⟨j, r', hold, hsame, hat⟩
  · intro a b ra rb claimedAt hra hrb hid hca hcb
    rcases runs_setRun hra with ⟨rfl, rfl⟩ | ⟨hane, hraold⟩
    · rcases runs_setRun hrb with ⟨rfl, -⟩ | ⟨-, hrbold⟩
      · rfl
      · cases hca
        exact absurd rfl (hself _ (hended b rb _ hrbold hid.symm hcb))
    · rcases runs_setRun hrb with ⟨rfl, rfl⟩ | ⟨-, hrbold⟩
      · cases hcb
        exact absurd rfl (hself _ (hended a ra _ hraold hid hca))
      · exact hs.distinct a b ra rb claimedAt hraold hrbold hid hca hcb
  · intro a ra claimedAt hra hphase hat b rb startedAt hrb hid hstarted
    have hrbold : s.runs[b]? = some rb := by
      rcases runs_setRun hrb with ⟨rfl, rfl⟩ | ⟨-, hold⟩
      · cases hstarted
      · exact hold
    obtain ⟨c, hc⟩ := claimed_of_started hstarted
    rcases runs_setRun hra with ⟨rfl, rfl⟩ | ⟨-, hraold⟩
    · exact hlong b rb c startedAt hrbold hid hc
        (hended b rb c hrbold hid (by rw [hc]; rfl))
    · have hne : ra.eventId ≠ run.eventId := by
        intro hsame
        -- The row names the new claim, and the caller it was taken from is past its end.
        have hnow : claimedAt = s.clock := by
          have hrow := claimOf_claimReplay hclaim
          rw [hsame] at hat
          exact Option.some.inj (hat.symm.trans hrow)
        exact hself claimedAt (hended a ra claimedAt hraold hsame (by rw [hphase]; rfl)) hnow
      have hkept : claimOf s.events ra.eventId = some claimedAt := by
        rw [← claimOf_claimReplay_other hne]
        exact hat
      exact hs.ready a ra claimedAt hraold hphase hkept b rb startedAt hrbold hid hstarted

theorem claimedAt?_of_claimed {claimedAt : Time} (h : run.phase = .claimed claimedAt) :
    run.phase.claimedAt? = some claimedAt := by
  rw [h]
  rfl

/-- A redelivery that a caller starts under its own claim is alone. -/
theorem Claims.startsAlone (hs : Claims s) (hcond : Undisturbed s e) : StartsAlone s e := by
  cases e with
  | redeliver i =>
      intro run claimedAt hrun hphase j other startedAt _ hother hid hstarted
      exact hs.ready i run claimedAt hrun hphase (hcond run claimedAt hrun hphase) j other
        startedAt hother hid hstarted
  | _ => trivial

theorem claimOf_settleReplay_other {type reason : String} {t : StripeEventTable}
    {now : Time} {id other : String} (h : other ≠ id) :
    claimOf (settleReplay t now id type (some reason)) other = claimOf t other :=
  (claimOf_releaseReplay_other h).trans claimOf_recordDelivery

/-- A failed replay frees the row of its event, and what the row named was the
claim of whoever frees it. -/
theorem Claims.sparesSuccessor (hs : Claims s) (hcond : Undisturbed s e) :
    SparesSuccessor s e := by
  cases e with
  | settle i rollback =>
      intro run claimedAt hrun hown _ j other theirs hne hother hid htheirs hrow t hstep
      rw [replayStep, hrun, Option.bind_some] at hstep
      split at hstep
      · next hphase =>
          cases hstep
          exact hrow
      · next c failure hphase =>
          cases hstep
          show claimOf (settleReplay s.events s.clock run.eventId run.type failure) _ = _
          cases failure with
          | none =>
              exact claimOf_markReplayed.trans hrow
          | some reason =>
              have hmine := hcond run c reason hrun hphase
              have hat : run.phase.claimedAt? = some theirs := by
                rw [hphase]
                exact hmine.symm.trans hrow
              exact absurd (hs.distinct j i other run theirs hother hrun hid htheirs hat) hne
      · cases hstep
  | _ => trivial

/-- The redelivery of whoever the row names is in its own time. -/
theorem Claims.started (hs : Claims s) (hrun : s.runs[i]? = some run) {claimedAt : Time}
    (hphase : run.phase = .claimed claimedAt)
    (hown : claimOf s.events run.eventId = some claimedAt) :
    Claims (s.setRun i run (.redelivering claimedAt s.clock)) := by
  have hback : ∀ (j : Nat) r', (s.setRun i run (.redelivering claimedAt s.clock)).runs[j]? =
      some r' → ∃ r, s.runs[j]? = some r ∧ r'.eventId = r.eventId ∧
        r'.phase.claimedAt? = r.phase.claimedAt? := by
    intro j r' hr'
    rcases runs_setRun hr' with ⟨rfl, rfl⟩ | ⟨-, hold⟩
    · exact ⟨run, hrun, rfl, (claimedAt?_of_claimed hphase).symm⟩
    · exact ⟨r', hold, rfl, rfl⟩
  refine ⟨fun id => ?_, ?_, ?_⟩
  · refine (hs.named id).fewer fun c hheld => ?_
    obtain ⟨j, r', hr', hsame, hat⟩ := hheld
    obtain ⟨r, hr, hid, hclaim⟩ := hback j r' hr'
    exact ⟨j, r, hr, hid.symm.trans hsame, hclaim.symm.trans hat⟩
  · intro a b ra rb c hra hrb hid hca hcb
    obtain ⟨ra₀, hra₀, hida, hclaima⟩ := hback a ra hra
    obtain ⟨rb₀, hrb₀, hidb, hclaimb⟩ := hback b rb hrb
    exact hs.distinct a b ra₀ rb₀ c hra₀ hrb₀ (hida.symm.trans (hid.trans hidb))
      (hclaima.symm.trans hca) (hclaimb.symm.trans hcb)
  · intro a ra c hra hclaimed hat b rb startedAt hrb hid hstarted
    rcases runs_setRun hra with ⟨-, rfl⟩ | ⟨hane, hraold⟩
    · cases hclaimed
    · rcases runs_setRun hrb with ⟨rfl, rfl⟩ | ⟨-, hrbold⟩
      · -- Two callers would both be the one the row names.
        have hsame : claimOf s.events ra.eventId = some claimedAt := hid ▸ hown
        have hc : c = claimedAt := Option.some.inj (hat.symm.trans hsame)
        exact absurd (hs.distinct a b ra run claimedAt hraold hrun hid.symm
          (hc ▸ claimedAt?_of_claimed hclaimed) (claimedAt?_of_claimed hphase)) hane
      · exact hs.ready a ra c hraold hclaimed hat b rb startedAt hrbold hid hstarted

theorem Claims.step (hs : Claims s) (hcond : Undisturbed s e) (h : replayStep s e = some t) :
    Claims t := by
  cases e with
  | call actorUserId stripeEventId configured retrieved =>
      unfold replayStep at h
      dsimp only at h
      split at h
      · next id type _ =>
          cases h
          refine hs.kept (fun j r' hr' => ?_) le_rfl fun _ => rfl
          rcases runs_append hr' with hold | rfl
          · exact .inr ⟨r', hold, rfl, rfl, .inl rfl⟩
          · exact .inl rfl
      · cases h
        exact hs
  | claim i =>
      obtain ⟨run, hrun, h⟩ := Option.bind_eq_some_iff.1 h
      split at h
      · dsimp only at h
        split at h
        · next hclaimed =>
            cases h
            exact hs.taken hrun hclaimed (hcond run hrun)
        · cases h
          exact hs.kept (Goes.setRun hrun (.inl rfl)) le_rfl fun _ => rfl
      · cases h
  | redeliver i =>
      obtain ⟨run, hrun, h⟩ := Option.bind_eq_some_iff.1 h
      split at h
      · next claimedAt hphase =>
          cases h
          exact hs.started hrun hphase (hcond run claimedAt hrun hphase)
      · cases h
  | answer i delivered =>
      obtain ⟨run, hrun, h⟩ := Option.bind_eq_some_iff.1 h
      split at h
      · next claimedAt startedAt hphase =>
          cases h
          refine hs.kept (Goes.setRun hrun (.inr ⟨?_, rfl, nofun⟩)) le_rfl fun _ => rfl
          rw [hphase]
          rfl
      · cases h
  | judge i read =>
      obtain ⟨run, hrun, h⟩ := Option.bind_eq_some_iff.1 h
      split at h
      · next claimedAt delivered hphase =>
          cases h
          refine hs.kept (Goes.setRun hrun (.inr ⟨?_, rfl, nofun⟩)) le_rfl fun _ => rfl
          rw [hphase]
          rfl
      · cases h
  | settle i rollback =>
      obtain ⟨run, hrun, h⟩ := Option.bind_eq_some_iff.1 h
      split at h
      · cases h
        exact hs.kept (Goes.setRun hrun (.inl rfl)) le_rfl fun _ => rfl
      · next claimedAt failure hphase _ =>
          cases h
          cases failure with
          | none =>
              exact hs.kept (Goes.setRun hrun (.inl rfl)) le_rfl fun _ => claimOf_markReplayed
          | some reason =>
              refine hs.released (Goes.setRun hrun (.inl rfl)) rfl hrun ?_
                (hcond run claimedAt reason hrun hphase) ?_ claimOf_releaseReplay
                fun _ => claimOf_settleReplay_other
              · rw [hphase]
                rfl
              · intro r' hr'
                rcases runs_setRun hr' with ⟨-, rfl⟩ | ⟨hne, -⟩
                · rfl
                · exact absurd rfl hne
      · cases h
  | deliver id type lastError =>
      cases h
      exact hs.kept (Goes.refl s) le_rfl fun _ => claimOf_recordDelivery
  | wait n =>
      cases h
      exact hs.kept (Goes.refl s) (Nat.le_add_right s.clock n) fun _ => rfl

end Step

theorem Claims.idle {s : ReplayState} (h : s.runs = []) : Claims s := by
  have hnone : ∀ (i : Nat) run, s.runs[i]? ≠ some run := by
    intro i run hrun
    rw [h] at hrun
    cases hrun
  refine ⟨fun id c hheld => ?_, ?_, ?_⟩
  · obtain ⟨i, run, hrun, -⟩ := hheld
    exact absurd hrun (hnone i run)
  · exact fun i _ ri _ _ hri => absurd hri (hnone i ri)
  · exact fun i ri _ hri => absurd hri (hnone i ri)

theorem redeliveries_apart {s₀ : ReplayState} {es : List ReplayEvent} (hidle : s₀.runs = [])
    (hmeets : Meets replayStep Undisturbed s₀ es) :
    Meets replayStep (fun s e => StartsAlone s e ∧ SparesSuccessor s e) s₀ es :=
  meets_imp (fun _ _ hs hcond => ⟨hs.startsAlone hcond, hs.sparesSuccessor hcond⟩)
    (fun _ _ _ hs hcond hstep => hs.step hcond hstep) (Claims.idle hidle) hmeets

/-! ## Runs on fixed inputs -/

/-- An event that has failed, and nobody who replays it. -/
def failedEvent : ReplayState :=
  { clock := 1000
    events := ⟨[⟨"evt_1", "invoice.payment_failed", 0, .failed, some "Late.", none, none⟩],
      List.nodup_singleton _⟩
    runs := []
    outbox := [] }

def replayOf (actorUserId : String) (phase : ReplayPhase) : ReplayRun :=
  ⟨actorUserId, "evt_1", "invoice.payment_failed", phase⟩

def timedOut : AppError := ⟨"TIMEOUT", "Timed out."⟩

/-- Three callers, the first of which claims and runs past its claim; the second
takes over. -/
def takeOver : List ReplayEvent :=
  [.call "ada" "evt_1" true none, .call "bob" "evt_1" true none, .call "eve" "evt_1" true none,
    .claim 0, .redeliver 0, .wait (121 * second), .claim 1, .redeliver 1]

/-- The first caller fails at last, which frees the event for the third. -/
def lateRelease : List ReplayEvent :=
  [.answer 0 (.error timedOut), .judge 0 none, .settle 0 none, .claim 2]

theorem late_release_frees_claim :
    ¬ Meets replayStep (fun s e => StartsAlone s e ∧ SparesSuccessor s e) failedEvent
      (takeOver ++ lateRelease ++ [.redeliver 2]) := by
  have hrun : (exec replayStep failedEvent (takeOver ++ lateRelease)).map
      (fun s => (s.clock, s.runs[1]?, s.runs[2]?)) =
        some (1000 + 121 * second,
          some (replayOf "bob" (.redelivering (1000 + 121 * second) (1000 + 121 * second))),
          some (replayOf "eve" (.claimed (1000 + 121 * second)))) := by decide
  obtain ⟨s, hs, hview⟩ := Option.map_eq_some_iff.1 hrun
  obtain ⟨hclock, hviews⟩ := Prod.mk.inj hview
  obtain ⟨hbob, heve⟩ := Prod.mk.inj hviews
  intro hmeets
  have halone := (meets_append hmeets hs).1.1 _ _ heve rfl 1 _ _ (by decide) hbob rfl rfl
  rw [hclock] at halone
  exact absurd halone (by decide)

/-- Two callers in turn, the first of which fails within its claim. -/
def inTurn : List ReplayEvent :=
  [.call "ada" "evt_1" true none, .call "bob" "evt_1" true none, .claim 0, .redeliver 0,
    .claim 1, .answer 0 (.error timedOut), .judge 0 none, .settle 0 none,
    .call "eve" "evt_1" true none, .claim 2, .redeliver 2]

/-- A test that is enough for `Undisturbed`. -/
def keepsToClaim (s : ReplayState) : ReplayEvent → Bool
  | .claim _ => s.runs.all fun run =>
      match run.phase with
      | .redelivering claimedAt startedAt => s.clock ≤ endOf claimedAt || endOf startedAt ≤ s.clock
      | _ => true
  | .redeliver i | .settle i _ => s.runs[i]?.all fun run =>
      claimOf s.events run.eventId = run.phase.claimedAt?
  | _ => true

theorem undisturbed_of_keepsToClaim (s : ReplayState) (e : ReplayEvent)
    (h : keepsToClaim s e = true) : Undisturbed s e := by
  have hown : ∀ (i : Nat) run, s.runs[i]? = some run → (s.runs[i]?.all fun run =>
      decide (claimOf s.events run.eventId = run.phase.claimedAt?)) = true →
      claimOf s.events run.eventId = run.phase.claimedAt? := by
    intro i run hrun hall
    rw [hrun] at hall
    exact of_decide_eq_true hall
  cases e with
  | claim i =>
      intro run _ j other claimedAt startedAt hother _ hphase hended
      have hrow := List.all_eq_true.1 h other (List.mem_of_getElem? hother)
      rw [hphase, Bool.or_eq_true, decide_eq_true_eq, decide_eq_true_eq] at hrow
      exact hrow.resolve_left (Nat.not_le.2 hended)
  | redeliver i =>
      intro run claimedAt hrun hphase
      exact (hown i run hrun h).trans (claimedAt?_of_claimed hphase)
  | settle i rollback =>
      cases rollback with
      | none =>
          intro run claimedAt reason hrun hphase
          rw [hown i run hrun h, hphase]
          rfl
      | some error => trivial
  | _ => trivial

theorem redeliveries_apart_in_turn : ∃ t, exec replayStep failedEvent inTurn = some t ∧
    Meets replayStep (fun s e => StartsAlone s e ∧ SparesSuccessor s e) failedEvent inTurn := by
  have hrun : (exec replayStep failedEvent inTurn).map (fun s => s.runs[2]?) =
      some (some (replayOf "eve" (.redelivering 1000 1000))) := by decide
  obtain ⟨t, ht, -⟩ := Option.map_eq_some_iff.1 hrun
  exact ⟨t, ht, redeliveries_apart rfl
    (meets_of_passes undisturbed_of_keepsToClaim (by decide))⟩

end CleanStack.Admin
