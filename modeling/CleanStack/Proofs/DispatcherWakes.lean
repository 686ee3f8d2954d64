import CleanStack.Outbox.Dispatcher

/-!
# No wake-up is lost, and one drain runs

The flag `draining` is up exactly while a drain runs, so a wake that finds it up
meets a drain, which reads `wakeRequested` after its last await: in the same
stretch of code as it arms the timer, there is no moment between the two. What a
wake asks for can be lost to `stop` alone.

`start` twice in a row is not ruled out below by a condition on runs. A call of
`start` that finds the dispatcher started does nothing, and a `start` during a
`stop` makes what `stop` promises void, so these results speak of a call that
finds it not started, and of a `stop` during which nobody starts.
-/

namespace CleanStack.Outbox

open CleanStack.Lib

def Running (s : DispatcherState) (d : Nat) : Prop :=
  ∃ phase, s.drains[d]? = some phase ∧ phase ≠ .finished

/-- A drain is running or a timer is armed. -/
def Awake (s : DispatcherState) : Prop := (∃ d, Running s d) ∨ s.timers ≠ []

structure Coherent (s : DispatcherState) : Prop where
  running : ∀ d, Running s d → s.draining = true ∧ s.inFlight = some d
  draining : s.draining = true → ∃ d, Running s d
  relay : s.stopped = false → ∃ r, s.relay = some r ∧ s.relays[r]? = some false
  known : ∀ r, s.relay = some r → r < s.relays.length
  entered : ∀ (d : Nat) r, s.drains[d]? = some (.entered (some r)) → r < s.relays.length

/-! ## What a step does -/

section Effects

variable {s t : DispatcherState} {d : Nat} {phase : DrainPhase}

theorem running_inDrain_iff (hd : Running s d) {d' : Nat} :
    Running (s.inDrain d phase) d' ↔ (d' = d ∧ phase ≠ .finished) ∨ (d' ≠ d ∧ Running s d') := by
  obtain ⟨old, hold, -⟩ := hd
  have hlt := (List.getElem?_eq_some_iff.1 hold).1
  by_cases hdd : d' = d
  · subst hdd
    simp [Running, DispatcherState.inDrain, List.getElem?_set_self hlt]
  · simp [Running, DispatcherState.inDrain, List.getElem?_set_ne (Ne.symm hdd), hdd]

/-- A drain that goes on, or turns to a relay that is there. -/
theorem Coherent.inDrain (hs : Coherent s) (hd : Running s d) (hphase : phase ≠ .finished)
    (hentered : ∀ r, phase = .entered (some r) → r < s.relays.length) :
    Coherent (s.inDrain d phase) := by
  refine ⟨fun d' h => ?_, fun _ => ⟨d, ?_⟩, hs.relay, hs.known, fun d' r h => ?_⟩
  · rcases (running_inDrain_iff hd).1 h with ⟨rfl, -⟩ | ⟨-, h⟩
    · exact hs.running d' hd
    · exact hs.running d' h
  · exact (running_inDrain_iff hd).2 (.inl ⟨rfl, hphase⟩)
  · simp only [DispatcherState.inDrain] at h ⊢
    rcases getElem?_set_cases h with ⟨-, hsame⟩ | ⟨-, hold⟩
    · exact hentered r hsame.symm
    · exact hs.entered d' r hold

theorem Coherent.finish (hs : Coherent s) (hd : Running s d) :
    Coherent { s.inDrain d .finished with draining := false } := by
  have hnone : ∀ d', ¬ Running (s.inDrain d .finished) d' := by
    intro d' h
    rcases (running_inDrain_iff hd).1 h with ⟨-, hne⟩ | ⟨hne, h⟩
    · exact hne rfl
    · have hsame := (hs.running d' h).2.symm.trans (hs.running d hd).2
      exact hne (Option.some.inj hsame)
  refine ⟨fun d' h => absurd h (hnone d'), fun h => absurd h Bool.false_ne_true, hs.relay, hs.known,
    fun d' r h => ?_⟩
  simp only [DispatcherState.inDrain] at h ⊢
  rcases getElem?_set_cases h with ⟨-, hsame⟩ | ⟨-, hold⟩
  · cases hsame
  · exact hs.entered d' r hold

theorem Coherent.wake (hs : Coherent s) : Coherent s.wake := by
  unfold DispatcherState.wake
  split
  · exact hs
  split
  · exact ⟨hs.running, hs.draining, hs.relay, hs.known, hs.entered⟩
  next hdraining =>
  have hrunning : ∀ d', Running { s.clearTimer with
      draining := true
      inFlight := some s.drains.length
      wakeRequested := false
      drains := s.drains ++ [.entered s.relay] } d' → d' = s.drains.length := by
    rintro d' ⟨phase, hget, hne⟩
    rw [List.getElem?_append] at hget
    split at hget
    · exact absurd (hs.running d' ⟨phase, hget, hne⟩).1 hdraining
    · have hlt := (List.getElem?_eq_some_iff.1 hget).1
      simp only [List.length_singleton] at hlt
      omega
  refine ⟨fun d' h => ⟨rfl, congrArg some (hrunning d' h).symm⟩,
    fun _ => ⟨s.drains.length, .entered s.relay, by simp, by simp⟩, hs.relay, hs.known,
    fun d' r h => ?_⟩
  rw [List.getElem?_append] at h
  split at h
  · exact hs.entered d' r h
  · have hlt := (List.getElem?_eq_some_iff.1 h).1
    simp only [List.length_singleton] at hlt
    rw [show d' - s.drains.length = 0 by omega] at h
    exact hs.known r (DrainPhase.entered.inj (Option.some.inj h))

theorem Coherent.afterPlan (hs : Coherent s) {ms : Nat} (hd : s.drains[d]? = some (.planned ms)) :
    Coherent (s.afterPlan d ms) := by
  have hrun : Running s d := ⟨_, hd, by simp⟩
  unfold DispatcherState.afterPlan
  split
  · have hagain : Coherent (s.inDrain d (.entered s.relay)) :=
      hs.inDrain hrun (by simp) fun r hr => hs.known r (DrainPhase.entered.inj hr)
    exact ⟨hagain.running, hagain.draining, hagain.relay, hagain.known, hagain.entered⟩
  · have hquiet := hs.finish hrun
    split
    · exact hquiet
    · exact ⟨hquiet.running, hquiet.draining, hquiet.relay, hquiet.known, hquiet.entered⟩

/-- What a drain has ahead of it, at most, before the next claim begins, once a
wake is requested. -/
def DrainPhase.ahead : DrainPhase → Nat
  | .entered _ => 5
  | .claiming => 4
  | .planning _ => 3
  | .planned _ => 2
  | .finished => 0

/-- A step of a drain gets it on, or begins a claim, or comes to the end of the
loop's body. -/
theorem drainStep_cases {answer : DrainAnswer} (h : drainStep s d phase answer = some t) :
    (∃ phase', t = s.inDrain d phase' ∧ 2 ≤ phase'.ahead ∧ phase'.ahead < phase.ahead ∧
      ∀ r, phase = .entered (some r) → s.relays[r]? = some true) ∨
    (∃ r, phase = .entered (some r) ∧ s.relays[r]? = some false ∧
      t = { s.inDrain d .claiming with claims := s.claims + 1 }) ∨
    ∃ ms, phase = .planned ms ∧ t = s.afterPlan d ms := by
  unfold Outbox.drainStep at h
  split at h
  · cases h
    exact .inl ⟨_, rfl, by simp [DrainPhase.ahead], by simp [DrainPhase.ahead], by simp⟩
  · next r =>
    obtain ⟨isHalted, hr, rfl⟩ := Option.map_eq_some_iff.1 h
    cases isHalted with
    | true =>
        refine .inl ⟨_, rfl, by simp [DrainPhase.ahead], by simp [DrainPhase.ahead], ?_⟩
        intro r' hr'
        cases hr'
        exact hr
    | false => exact .inr (.inl ⟨r, rfl, hr, rfl⟩)
  · cases h
    exact .inl ⟨_, rfl, by simp [DrainPhase.ahead], by simp [DrainPhase.ahead], by simp⟩
  · cases h
    exact .inl ⟨_, rfl, by simp [DrainPhase.ahead], by simp [DrainPhase.ahead], by simp⟩
  · cases h
    exact .inl ⟨_, rfl, by simp [DrainPhase.ahead], by simp [DrainPhase.ahead], by simp⟩
  · cases h
    exact .inl ⟨_, rfl, by simp [DrainPhase.ahead], by simp [DrainPhase.ahead], by simp⟩
  · next ms =>
    cases h
    exact .inr (.inr ⟨ms, rfl, rfl⟩)
  · cases h

theorem running_of_ahead (hd : s.drains[d]? = some phase) (h : 0 < phase.ahead) : Running s d := by
  refine ⟨phase, hd, ?_⟩
  rintro rfl
  exact absurd h (by simp [DrainPhase.ahead])

theorem running_of_drainStep {answer : DrainAnswer} (hd : s.drains[d]? = some phase)
    (h : drainStep s d phase answer = some t) : Running s d := by
  refine running_of_ahead hd ?_
  rcases drainStep_cases h with ⟨phase', -, -, hlt, -⟩ | ⟨r, rfl, -, -⟩ | ⟨ms, rfl, -⟩
  · omega
  · simp [DrainPhase.ahead]
  · simp [DrainPhase.ahead]

theorem ne_finished_of_ahead (h : 0 < phase.ahead) : phase ≠ .finished := by
  rintro rfl
  exact absurd h (by simp [DrainPhase.ahead])

theorem Coherent.drainStep {answer : DrainAnswer} (hs : Coherent s)
    (hd : s.drains[d]? = some phase) (h : drainStep s d phase answer = some t) : Coherent t := by
  have hrun := running_of_drainStep hd h
  rcases drainStep_cases h with ⟨phase', rfl, htwo, hlt, -⟩ | ⟨r, -, -, rfl⟩ | ⟨ms, rfl, rfl⟩
  · refine hs.inDrain hrun (ne_finished_of_ahead (by omega)) fun r hr => ?_
    cases phase <;> simp [hr, DrainPhase.ahead] at hlt
  · have hclaims : Coherent (s.inDrain d .claiming) := hs.inDrain hrun (by simp) (by simp)
    exact ⟨hclaims.running, hclaims.draining, hclaims.relay, hclaims.known, hclaims.entered⟩
  · exact hs.afterPlan hd

theorem Coherent.begun (hs : Coherent s) : Coherent s.begun := by
  unfold DispatcherState.begun
  split
  · exact ⟨hs.running, hs.draining, hs.relay, hs.known, hs.entered⟩
  · refine ⟨hs.running, hs.draining, fun _ => ⟨s.relays.length, rfl, by simp⟩, fun r hr => ?_,
      fun d' r h => ?_⟩
    · rw [← Option.some.inj hr]
      simp
    · have := hs.entered d' r h
      simp only [List.length_append, List.length_singleton]
      omega

theorem length_halt (relays : List Bool) (relay : Option Nat) :
    (relay.elim relays fun r => relays.set r true).length = relays.length := by
  cases relay with
  | none => rfl
  | some r => simp

theorem Coherent.halted (hs : Coherent s) : Coherent s.halted := by
  have hlen := length_halt s.relays s.relay
  refine ⟨hs.running, hs.draining, fun h => absurd h.symm Bool.false_ne_true, ?_, ?_⟩
  · exact fun r hr => hlen.symm ▸ hs.known r hr
  · exact fun d' r h => hlen.symm ▸ hs.entered d' r h

end Effects

theorem coherent_newDispatcher : Coherent newDispatcher where
  running d h := by
    obtain ⟨phase, hget, -⟩ := h
    simp [newDispatcher] at hget
  draining h := by cases h
  relay h := by cases h
  known r h := by cases h
  entered d r h := by simp [newDispatcher] at h

theorem getElem?_set_cases_of_ne {α : Type} {l : List α} {i j : Nat} {a b : α}
    (h : (l.set i a)[j]? = some b) (hab : a ≠ b) : l[j]? = some b := by
  rcases getElem?_set_cases h with ⟨-, hsame⟩ | ⟨-, hold⟩
  · exact absurd hsame.symm hab
  · exact hold

def DispatcherEvent.wakes : DispatcherEvent → Bool
  | .listening _ | .notification | .reconnect | .fire _ => true
  | _ => false

def DispatcherEvent.ofDrain : DispatcherEvent → Bool
  | .drain _ _ => true
  | _ => false

/-- A step is a call, a call that gets on without another effect, a wake, or a
step of a drain. -/
theorem dispatcherStep_cases {s t : DispatcherState} {e : DispatcherEvent}
    (h : dispatcherStep s e = some t) :
    (e = .start ∧ t = s.begun) ∨ (e = .stop ∧ t = s.halted) ∨
    (∃ starts stops, t = { s with starts := starts, stops := stops } ∧
      e.wakes = false ∧ e.ofDrain = false ∧
      starts.length = s.starts.length ∧ stops.length = s.stops.length ∧
      (∀ i : Nat, starts[i]? = some .resolved → s.starts[i]? = some .resolved) ∧
      ∀ (i : Nat) inFlight, s.stops[i]? = some (.draining inFlight) →
        stops[i]? = some (.draining inFlight) ∨
          ∀ d, inFlight = some d → s.drains[d]? = some .finished) ∨
    (∃ starts timers, t = { s with starts := starts, timers := timers }.wake ∧
      e.ofDrain = false ∧ starts.length = s.starts.length) ∨
    ∃ d phase answer, e = .drain d answer ∧ s.drains[d]? = some phase ∧
      drainStep s d phase answer = some t := by
  have hmoved : ∀ {i : Nat} {phase : StartPhase}, phase ≠ .resolved → ∀ j : Nat,
      (s.starts.set i phase)[j]? = some .resolved → s.starts[j]? = some .resolved :=
    fun hne _ hj => getElem?_set_cases_of_ne hj hne
  have hstops : ∀ (i : Nat) inFlight, s.stops[i]? = some (.draining inFlight) →
      s.stops[i]? = some (.draining inFlight) ∨
        ∀ d, inFlight = some d → s.drains[d]? = some .finished := fun _ _ hi => .inl hi
  cases e with
  | start =>
      cases h
      exact .inl ⟨rfl, rfl⟩
  | stop =>
      cases h
      exact .inr (.inl ⟨rfl, rfl⟩)
  | retired i =>
      obtain ⟨-, h⟩ := Option.ite_none_right_eq_some.1 h
      cases h
      exact .inr (.inr (.inl ⟨_, _, rfl, rfl, rfl, by simp, rfl, hmoved (by simp), hstops⟩))
  | rejected i =>
      obtain ⟨-, h⟩ := Option.ite_none_right_eq_some.1 h
      cases h
      exact .inr (.inr (.inl ⟨_, _, rfl, rfl, rfl, by simp, rfl, hmoved (by simp), hstops⟩))
  | awaited i =>
      obtain ⟨phase, hphase, h⟩ := Option.bind_eq_some_iff.1 h
      cases phase with
      | draining inFlight =>
          obtain ⟨hdone, h⟩ := Option.ite_none_right_eq_some.1 h
          cases h
          refine .inr (.inr (.inl ⟨_, _, rfl, rfl, rfl, rfl, by simp, fun _ hj => hj,
            fun j waits hj => ?_⟩))
          by_cases hij : i = j
          · subst hij
            obtain rfl := StopPhase.draining.inj (Option.some.inj (hphase.symm.trans hj))
            refine .inr fun d hd => ?_
            rw [hd] at hdone
            simpa using hdone
          · rw [List.getElem?_set_ne hij]
            exact .inl hj
      | unlistening => cases h
      | resolved => cases h
  | unlistened i =>
      obtain ⟨hphase, h⟩ := Option.ite_none_right_eq_some.1 h
      cases h
      refine .inr (.inr (.inl ⟨_, _, rfl, rfl, rfl, rfl, by simp, fun _ hj => hj,
        fun j waits hj => ?_⟩))
      by_cases hij : i = j
      · subst hij
        rw [hphase] at hj
        cases hj
      · rw [List.getElem?_set_ne hij]
        exact .inl hj
  | listening i =>
      obtain ⟨-, h⟩ := Option.ite_none_right_eq_some.1 h
      cases h
      exact .inr (.inr (.inr (.inl ⟨_, s.timers, rfl, rfl, by simp⟩)))
  | notification =>
      cases h
      exact .inr (.inr (.inr (.inl ⟨s.starts, s.timers, rfl, rfl, rfl⟩)))
  | reconnect =>
      cases h
      exact .inr (.inr (.inr (.inl ⟨s.starts, s.timers, rfl, rfl, rfl⟩)))
  | fire timer =>
      obtain ⟨-, h⟩ := Option.ite_none_right_eq_some.1 h
      cases h
      exact .inr (.inr (.inr (.inl ⟨s.starts, _, rfl, rfl, rfl⟩)))
  | drain d answer =>
      obtain ⟨phase, hd, h⟩ := Option.bind_eq_some_iff.1 h
      exact .inr (.inr (.inr (.inr ⟨d, phase, answer, rfl, hd, h⟩)))

theorem coherent_step (s : DispatcherState) (e : DispatcherEvent) (t : DispatcherState)
    (hs : Coherent s) (h : dispatcherStep s e = some t) : Coherent t := by
  rcases dispatcherStep_cases h with ⟨-, rfl⟩ | ⟨-, rfl⟩ | ⟨starts, stops, rfl, -⟩ |
    ⟨starts, timers, rfl, -⟩ | ⟨d, phase, answer, -, hd, h⟩
  · exact hs.begun
  · exact hs.halted
  · exact ⟨hs.running, hs.draining, hs.relay, hs.known, hs.entered⟩
  · have hcalls : Coherent { s with starts := starts, timers := timers } :=
      ⟨hs.running, hs.draining, hs.relay, hs.known, hs.entered⟩
    exact hcalls.wake
  · exact hs.drainStep hd h

theorem coherent_of_run {es : List DispatcherEvent} {s : DispatcherState}
    (h : exec dispatcherStep newDispatcher es = some s) : Coherent s :=
  runs_inv coherent_step coherent_newDispatcher h

/-! ## Awake from the start -/

@[simp]
theorem wake_stopped (s : DispatcherState) : s.wake.stopped = s.stopped := by
  unfold DispatcherState.wake
  split
  · rfl
  split <;> rfl

@[simp]
theorem wake_starts (s : DispatcherState) : s.wake.starts = s.starts := by
  unfold DispatcherState.wake
  split
  · rfl
  split <;> rfl

@[simp]
theorem wake_claims (s : DispatcherState) : s.wake.claims = s.claims := by
  unfold DispatcherState.wake
  split
  · rfl
  split <;> rfl

theorem wake_of_stopped {s : DispatcherState} (h : s.stopped = true) : s.wake = s :=
  if_pos h

theorem wake_of_draining {s : DispatcherState} (hstop : s.stopped = false)
    (h : s.draining = true) : s.wake = { s with wakeRequested := true } := by
  simp [DispatcherState.wake, hstop, h]

theorem awake_wake {s : DispatcherState} (hs : Coherent s) (hstop : s.stopped = false) :
    Awake s.wake := by
  by_cases hdraining : s.draining = true
  · obtain ⟨d, hd⟩ := hs.draining hdraining
    rw [wake_of_draining hstop hdraining]
    exact .inl ⟨d, hd⟩
  · refine .inl ⟨s.drains.length, .entered s.relay, ?_, by simp⟩
    simp [DispatcherState.wake, hstop, hdraining]

section Drains

variable {s t : DispatcherState} {d : Nat} {phase : DrainPhase} {answer : DrainAnswer}

@[simp]
theorem afterPlan_calls (s : DispatcherState) (d ms : Nat) :
    (s.afterPlan d ms).stopped = s.stopped ∧ (s.afterPlan d ms).starts = s.starts ∧
      (s.afterPlan d ms).stops = s.stops ∧ (s.afterPlan d ms).claims = s.claims := by
  unfold DispatcherState.afterPlan
  split
  · exact ⟨rfl, rfl, rfl, rfl⟩
  · dsimp only
    split <;> exact ⟨rfl, rfl, rfl, rfl⟩

/-- Drains have nothing to do with the calls. -/
theorem drainStep_calls (h : drainStep s d phase answer = some t) :
    t.stopped = s.stopped ∧ t.starts = s.starts ∧ t.stops = s.stops ∧ s.claims ≤ t.claims := by
  rcases drainStep_cases h with ⟨phase', rfl, -, -, -⟩ | ⟨r, -, -, rfl⟩ | ⟨ms, -, rfl⟩
  · exact ⟨rfl, rfl, rfl, Nat.le_refl _⟩
  · exact ⟨rfl, rfl, rfl, Nat.le_succ _⟩
  · obtain ⟨hstopped, hstarts, hstops, hclaims⟩ := afterPlan_calls s d ms
    exact ⟨hstopped, hstarts, hstops, Nat.le_of_eq hclaims.symm⟩

/-- A drain that ends while nobody has stopped the dispatcher leaves a timer. -/
theorem awake_drainStep (hd : s.drains[d]? = some phase) (hstop : s.stopped = false)
    (h : drainStep s d phase answer = some t) : Awake t := by
  have hrun := running_of_drainStep hd h
  rcases drainStep_cases h with ⟨phase', rfl, htwo, -, -⟩ | ⟨r, -, -, rfl⟩ | ⟨ms, -, rfl⟩
  · refine .inl ⟨d, (running_inDrain_iff hrun).2 (.inl ⟨rfl, ne_finished_of_ahead ?_⟩)⟩
    omega
  · have hclaiming : Running (s.inDrain d .claiming) d :=
      (running_inDrain_iff hrun).2 (.inl ⟨rfl, by simp⟩)
    exact .inl ⟨d, hclaiming⟩
  · unfold DispatcherState.afterPlan
    split
    · have hentered : Running (s.inDrain d (.entered s.relay)) d :=
        (running_inDrain_iff hrun).2 (.inl ⟨rfl, by simp⟩)
      exact .inl ⟨d, hentered⟩
    · rw [hstop]
      exact .inr (List.cons_ne_nil _ _)

end Drains

theorem begun_frame (s : DispatcherState) : s.begun.timers = s.timers ∧
    s.begun.drains = s.drains ∧ s.begun.stops = s.stops ∧ s.begun.claims = s.claims ∧
    (s.stopped = false → s.begun.stopped = false) ∧
    ∃ phase, s.begun.starts = s.starts ++ [phase] := by
  unfold DispatcherState.begun
  split
  · exact ⟨rfl, rfl, rfl, rfl, id, _, rfl⟩
  · exact ⟨rfl, rfl, rfl, rfl, fun _ => rfl, _, rfl⟩

/-- The start in question has not resolved yet, or the dispatcher is awake. -/
structure Attended (i : Nat) (s : DispatcherState) : Prop where
  coherent : Coherent s
  known : i < s.starts.length
  stopped : s.stopped = false
  awake : s.starts[i]? = some .resolved → Awake s

theorem attended_step {i : Nat} {s t : DispatcherState} {e : DispatcherEvent} (hs : Attended i s)
    (hne : e ≠ .stop) (h : dispatcherStep s e = some t) : Attended i t := by
  have hcoherent := coherent_step s e t hs.coherent h
  rcases dispatcherStep_cases h with ⟨-, rfl⟩ | ⟨he, -⟩ |
    ⟨starts, stops, rfl, -, -, hlen, -, hstarts, -⟩ | ⟨starts, timers, rfl, -, hlen⟩ |
    ⟨d, phase, answer, -, hd, hstep⟩
  · obtain ⟨htimers, hdrains, -, -, hstopped, phase, hstarts⟩ := begun_frame s
    refine ⟨hcoherent, ?_, hstopped hs.stopped, fun hi => ?_⟩
    · have := hs.known
      rw [hstarts, List.length_append]
      omega
    · rw [hstarts, List.getElem?_append_left hs.known] at hi
      simpa [Awake, Running, htimers, hdrains] using hs.awake hi
  · exact absurd he hne
  · exact ⟨hcoherent, hlen.symm ▸ hs.known, hs.stopped, fun hi => hs.awake (hstarts i hi)⟩
  · have hcalls : Coherent { s with starts := starts, timers := timers } :=
      ⟨hs.coherent.running, hs.coherent.draining, hs.coherent.relay, hs.coherent.known,
        hs.coherent.entered⟩
    refine ⟨hcoherent, ?_, (wake_stopped _).trans hs.stopped, fun _ => ?_⟩
    · simpa [hlen] using hs.known
    · exact awake_wake hcalls hs.stopped
  · obtain ⟨hstopped, hstarts, -, -⟩ := drainStep_calls hstep
    exact ⟨hcoherent, hstarts ▸ hs.known, hstopped.trans hs.stopped,
      fun _ => awake_drainStep hd hs.stopped hstep⟩

/-- From the start's resolution until `stop` is called. -/
theorem awake_of_resolved {s s' t : DispatcherState} {es : List DispatcherEvent}
    (hs : Coherent s) (hstarted : s.started = false) (h : dispatcherStep s .start = some s')
    (hrun : exec dispatcherStep s' es = some t) (hes : .stop ∉ es)
    (hresolved : t.starts[s.starts.length]? = some .resolved) : Awake t := by
  have hcoherent := coherent_step s _ s' hs h
  obtain rfl : s.begun = s' := Option.some.inj h
  have hfirst : Attended s.starts.length s.begun := by
    refine ⟨hcoherent, ?_, ?_, fun hi => ?_⟩
    · simp [DispatcherState.begun, hstarted]
    · simp [DispatcherState.begun, hstarted]
    · simp [DispatcherState.begun, hstarted] at hi
  have hlast := runs_inv_mem (K := fun e : DispatcherEvent => e ≠ .stop)
    (fun _ _ _ hi hne hstep => attended_step hi hne hstep) hfirst
    (fun _ he hstop => hes (hstop ▸ he)) hrun
  exact hlast.awake hresolved

/-! ## A wake that finds a drain -/

/-- The drain has been asked for another claim, or is about to begin one. -/
def Asked (s : DispatcherState) (taken : Nat) (phase : DrainPhase) : Prop :=
  (s.wakeRequested = true ∧ taken + phase.ahead ≤ 5) ∨
    (taken ≤ 4 ∧ ∃ r, phase = .entered (some r) ∧ s.relays[r]? = some false)

/-- A claim has begun since there were `n`, or drain `d` is on its way to one. -/
def Served (n d taken : Nat) (s : DispatcherState) : Prop :=
  n < s.claims ∨ (n = s.claims ∧ s.stopped = false ∧
    ∃ phase, s.drains[d]? = some phase ∧ phase ≠ .finished ∧ Asked s taken phase)

theorem claims_step {s t : DispatcherState} {e : DispatcherEvent}
    (h : dispatcherStep s e = some t) : s.claims ≤ t.claims := by
  rcases dispatcherStep_cases h with ⟨-, rfl⟩ | ⟨-, rfl⟩ | ⟨starts, stops, rfl, -⟩ |
    ⟨starts, timers, rfl, -⟩ | ⟨d, phase, answer, -, -, hstep⟩
  · exact Nat.le_of_eq (begun_frame s).2.2.2.1.symm
  · exact Nat.le_refl _
  · exact Nat.le_refl _
  · simp
  · exact (drainStep_calls hstep).2.2.2

theorem served_step {n d taken : Nat} {s t : DispatcherState} {e : DispatcherEvent}
    (hs : Coherent s) (hserved : Served n d taken s) (hne : e ≠ .stop)
    (h : dispatcherStep s e = some t) : Served n d (taken + e.ofDrain.toNat) t := by
  rcases hserved with hmore | ⟨hn, hstop, phase, hd, hphase, hasked⟩
  · exact .inl (Nat.lt_of_lt_of_le hmore (claims_step h))
  rcases dispatcherStep_cases h with ⟨rfl, rfl⟩ | ⟨he, -⟩ | ⟨starts, stops, rfl, -, hof, -⟩ |
    ⟨starts, timers, rfl, hof, -⟩ | ⟨d', phase', answer, rfl, hd', hstep⟩
  · obtain ⟨-, hdrains, -, hclaims, hstopped, -⟩ := begun_frame s
    refine .inr ⟨hn.trans hclaims.symm, hstopped hstop, phase, hdrains ▸ hd, hphase, ?_⟩
    unfold DispatcherState.begun
    split
    · exact hasked
    · refine hasked.imp_right fun ⟨htaken, r, hr, hfalse⟩ => ⟨htaken, r, hr, ?_⟩
      rw [List.getElem?_append_left (List.getElem?_eq_some_iff.1 hfalse).1, hfalse]
  · exact absurd he hne
  · rw [hof]
    exact .inr ⟨hn, hstop, phase, hd, hphase, hasked⟩
  · have hdraining := (hs.running d ⟨phase, hd, hphase⟩).1
    have hwake : DispatcherState.wake { s with starts := starts, timers := timers } =
        { s with starts := starts, timers := timers, wakeRequested := true } :=
      wake_of_draining hstop hdraining
    rw [hof, hwake]
    refine .inr ⟨hn, hstop, phase, hd, hphase, ?_⟩
    exact hasked.imp_left fun ⟨_, htaken⟩ => ⟨rfl, htaken⟩
  · have hrun := running_of_drainStep hd' hstep
    obtain rfl : d' = d := Option.some.inj
      ((hs.running d' hrun).2.symm.trans (hs.running d ⟨phase, hd, hphase⟩).2)
    obtain rfl : phase' = phase := Option.some.inj (hd'.symm.trans hd)
    have hlt := (List.getElem?_eq_some_iff.1 hd).1
    rcases drainStep_cases hstep with ⟨next, rfl, htwo, hahead, hhalted⟩ | ⟨r, -, -, rfl⟩ |
      ⟨ms, rfl, rfl⟩
    · refine .inr ⟨hn, hstop, next, List.getElem?_set_self hlt, ne_finished_of_ahead (by omega), ?_⟩
      rcases hasked with ⟨hwake, htaken⟩ | ⟨-, r, hr, hfalse⟩
      · exact .inl ⟨hwake, by simp [DispatcherEvent.ofDrain]; omega⟩
      · rw [hhalted r hr] at hfalse
        cases hfalse
    · exact .inl (by simp [hn])
    · rcases hasked with ⟨hwake, htaken⟩ | ⟨-, r, hr, -⟩
      · obtain ⟨r, hr, hfalse⟩ := hs.relay hstop
        have hagain : s.afterPlan d' ms =
            { s.inDrain d' (.entered s.relay) with wakeRequested := false } := by
          simp [DispatcherState.afterPlan, hstop, hwake]
        rw [hagain]
        refine .inr ⟨hn, hstop, .entered s.relay, List.getElem?_set_self hlt, by simp, .inr ⟨?_, ?_⟩⟩
        · simp only [DrainPhase.ahead] at htaken
          simp [DispatcherEvent.ofDrain]
          omega
        · exact ⟨r, congrArg _ hr, hfalse⟩
      · cases hr

/-- A drain is never stuck: some answer is one it waits for. -/
theorem drain_answers {s : DispatcherState} {d : Nat} (hs : Coherent s) (hd : Running s d) :
    ∃ answer t, dispatcherStep s (.drain d answer) = some t := by
  obtain ⟨phase, hget, hne⟩ := hd
  have hstep : ∀ answer, dispatcherStep s (.drain d answer) = drainStep s d phase answer := by
    intro answer
    simp [dispatcherStep, hget]
  cases phase with
  | entered relay =>
      refine ⟨.opened, ?_⟩
      rw [hstep]
      cases relay with
      | none => exact ⟨_, rfl⟩
      | some r =>
          obtain ⟨isHalted, hr⟩ : ∃ isHalted, s.relays[r]? = some isHalted :=
            ⟨_, List.getElem?_eq_getElem (hs.entered d r hget)⟩
          exact ⟨s.drainOnce d isHalted, by simp [drainStep, hr]⟩
  | claiming => exact ⟨.failed, _, hstep _⟩
  | planning handled => exact ⟨.failed, _, hstep _⟩
  | planned ms => exact ⟨.resumed, _, hstep _⟩
  | finished => exact absurd rfl hne

/-- From a wake that meets a drain until `stop` is called. -/
theorem claim_of_wake {s s' t : DispatcherState} {e : DispatcherEvent} {d : Nat}
    {es : List DispatcherEvent} (hs : Coherent s) (he : e.wakes = true)
    (hstop : s.stopped = false) (hd : Running s d) (h : dispatcherStep s e = some s')
    (hrun : exec dispatcherStep s' es = some t) (hes : .stop ∉ es) :
    s.claims < t.claims ∨ (Running t d ∧ es.countP DispatcherEvent.ofDrain ≤ 4 ∧
      ∃ answer u, dispatcherStep t (.drain d answer) = some u) := by
  have hfirst : Served s.claims d 0 s' := by
    obtain ⟨phase, hget, hne⟩ := hd
    rcases dispatcherStep_cases h with ⟨rfl, -⟩ | ⟨rfl, -⟩ | ⟨starts, stops, -, hnot, -⟩ |
      ⟨starts, timers, rfl, -⟩ | ⟨d', phase', answer, rfl, -⟩
    · cases he
    · cases he
    · rw [hnot] at he
      cases he
    · have hwake : DispatcherState.wake { s with starts := starts, timers := timers } =
          { s with starts := starts, timers := timers, wakeRequested := true } :=
        wake_of_draining hstop (hs.running d ⟨phase, hget, hne⟩).1
      rw [hwake]
      refine .inr ⟨rfl, hstop, phase, hget, hne, .inl ⟨rfl, ?_⟩⟩
      cases phase <;> simp [DrainPhase.ahead]
    · cases he
  have hlast : Coherent t ∧ Served s.claims d (es.countP DispatcherEvent.ofDrain) t := by
    have hrule : .stop ∉ es →
        Coherent t ∧ Served s.claims d (es.countP DispatcherEvent.ofDrain) t := by
      refine @runs_trace_inv _ _ dispatcherStep
        (fun es m => .stop ∉ es →
          Coherent m ∧ Served s.claims d (es.countP DispatcherEvent.ofDrain) m) s'
        (fun _ => ⟨coherent_step s e s' hs h, hfirst⟩) ?_ es t hrun
      intro es m e' u _ hi hstep hnot
      simp only [List.mem_append, List.mem_singleton, not_or] at hnot
      obtain ⟨hm, hserved⟩ := hi hnot.1
      refine ⟨coherent_step m e' u hm hstep, ?_⟩
      have hnext := served_step hm hserved (Ne.symm hnot.2) hstep
      cases hof : e'.ofDrain <;> simpa [hof] using hnext
    exact hrule hes
  obtain ⟨hcoherent, hmore | ⟨-, -, phase, hget, hne, hasked⟩⟩ := hlast
  · exact .inl hmore
  · refine .inr ⟨⟨phase, hget, hne⟩, ?_, drain_answers hcoherent ⟨phase, hget, hne⟩⟩
    rcases hasked with ⟨-, htaken⟩ | ⟨htaken, -⟩
    · have hahead : 2 ≤ phase.ahead := by
        cases phase <;> simp [DrainPhase.ahead] at hne ⊢
      omega
    · exact htaken

/-! ## Quiet after a stop -/

/-- What a stop that waits for `inFlight` can count on while nobody starts. -/
structure Stopping (i : Nat) (inFlight : Option Nat) (s : DispatcherState) : Prop where
  stopped : s.stopped = true
  known : i < s.stops.length
  running : ∀ d, Running s d → inFlight = some d
  waits : s.stops[i]? = some (.draining inFlight) ∨ ∀ d, ¬ Running s d

/-- Nothing runs, and nothing will. -/
structure Quiet (n : Nat) (s : DispatcherState) : Prop where
  stopped : s.stopped = true
  idle : ∀ d, ¬ Running s d
  claims : s.claims = n

theorem running_drainStep {s t : DispatcherState} {d d' : Nat} {phase : DrainPhase}
    {answer : DrainAnswer} (hd : s.drains[d]? = some phase)
    (h : drainStep s d phase answer = some t) (hrun : Running t d') : Running s d' := by
  have hbefore := running_of_drainStep hd h
  have hset : ∀ next, Running (s.inDrain d next) d' → Running s d' := by
    intro next hnext
    rcases (running_inDrain_iff hbefore).1 hnext with ⟨rfl, -⟩ | ⟨-, hother⟩
    · exact hbefore
    · exact hother
  rcases drainStep_cases h with ⟨next, rfl, -, -, -⟩ | ⟨r, -, -, rfl⟩ | ⟨ms, -, rfl⟩
  · exact hset next hrun
  · exact hset .claiming hrun
  · unfold DispatcherState.afterPlan at hrun
    split at hrun
    · exact hset _ hrun
    · dsimp only at hrun
      split at hrun
      · exact hset .finished hrun
      · exact hset .finished hrun

theorem stopping_step {i : Nat} {inFlight : Option Nat} {s t : DispatcherState}
    {e : DispatcherEvent} (hs : Stopping i inFlight s) (hne : e ≠ .start)
    (h : dispatcherStep s e = some t) : Stopping i inFlight t := by
  rcases dispatcherStep_cases h with ⟨he, -⟩ | ⟨-, rfl⟩ |
    ⟨starts, stops, rfl, -, -, -, hlen, -, hstops⟩ | ⟨starts, timers, rfl, -⟩ |
    ⟨d, phase, answer, -, hd, hstep⟩
  · exact absurd he hne
  · refine ⟨rfl, ?_, hs.running, hs.waits.imp_left fun hwaits => ?_⟩
    · have := hs.known
      simp [DispatcherState.halted]
      omega
    · simp only [DispatcherState.halted]
      rw [List.getElem?_append_left hs.known, hwaits]
  · refine ⟨hs.stopped, hlen.symm ▸ hs.known, hs.running, ?_⟩
    rcases hs.waits with hwaits | hidle
    · refine (hstops i inFlight hwaits).imp_right fun hdone d hd => ?_
      obtain ⟨phase, hget, hne⟩ := hd
      have hfinished := hdone d (hs.running d ⟨phase, hget, hne⟩)
      exact hne (Option.some.inj (hget.symm.trans hfinished))
    · exact .inr hidle
  · have hwake : DispatcherState.wake { s with starts := starts, timers := timers } =
        { s with starts := starts, timers := timers } := wake_of_stopped hs.stopped
    rw [hwake]
    exact ⟨hs.stopped, hs.known, hs.running, hs.waits⟩
  · obtain ⟨hstopped, -, hstops, -⟩ := drainStep_calls hstep
    exact ⟨hstopped.trans hs.stopped, hstops ▸ hs.known,
      fun d' hrun => hs.running d' (running_drainStep hd hstep hrun),
      hs.waits.imp (hstops ▸ ·) fun hidle d' hrun => hidle d' (running_drainStep hd hstep hrun)⟩

theorem quiet_step {n : Nat} {s t : DispatcherState} {e : DispatcherEvent} (hs : Quiet n s)
    (hne : e ≠ .start) (h : dispatcherStep s e = some t) : Quiet n t := by
  rcases dispatcherStep_cases h with ⟨he, -⟩ | ⟨-, rfl⟩ | ⟨starts, stops, rfl, -⟩ |
    ⟨starts, timers, rfl, -⟩ | ⟨d, phase, answer, -, hd, hstep⟩
  · exact absurd he hne
  · exact ⟨rfl, hs.idle, hs.claims⟩
  · exact ⟨hs.stopped, hs.idle, hs.claims⟩
  · have hwake : DispatcherState.wake { s with starts := starts, timers := timers } =
        { s with starts := starts, timers := timers } := wake_of_stopped hs.stopped
    rw [hwake]
    exact ⟨hs.stopped, hs.idle, hs.claims⟩
  · exact absurd (running_of_drainStep hd hstep) (hs.idle d)

/-- From the stop's resolution until `start` is called. -/
theorem quiet_of_stopped {s s' t u : DispatcherState} {es fs : List DispatcherEvent}
    (hs : Coherent s) (h : dispatcherStep s .stop = some s')
    (hrun : exec dispatcherStep s' es = some t) (hafter : exec dispatcherStep t fs = some u)
    (hes : .start ∉ es) (hfs : .start ∉ fs)
    (hresolved : t.stops[s.stops.length]? = some .resolved) : u.claims = t.claims := by
  obtain rfl : s.halted = s' := Option.some.inj h
  have hfirst : Stopping s.stops.length s.inFlight s.halted :=
    ⟨rfl, by simp [DispatcherState.halted], fun d hd => (hs.running d hd).2,
      .inl (by simp [DispatcherState.halted])⟩
  have hstopping := runs_inv_mem (K := fun e : DispatcherEvent => e ≠ .start)
    (fun _ _ _ hi hne hstep => stopping_step hi hne hstep) hfirst
    (fun _ he hstart => hes (hstart ▸ he)) hrun
  have hidle : ∀ d, ¬ Running t d := by
    rcases hstopping.waits with hwaits | hidle
    · rw [hresolved] at hwaits
      cases hwaits
    · exact hidle
  have hquiet := runs_inv_mem (K := fun e : DispatcherEvent => e ≠ .start)
    (fun _ _ _ hi hne hstep => quiet_step hi hne hstep)
    (⟨hstopping.stopped, hidle, rfl⟩ : Quiet t.claims t)
    (fun _ he hstart => hfs (hstart ▸ he)) hafter
  exact hquiet.claims

/-- A start that resolves leaves a drain or a timer until `stop` is called; two
drains never run; a wake that meets a drain gets a claim that begins after it,
within five steps of the drain; and a stop that resolves is the end of claims
until the next start. -/
theorem dispatcher_wakes {before : List DispatcherEvent} {s : DispatcherState}
    (h : exec dispatcherStep newDispatcher before = some s) :
    (∀ s' during t, s.started = false → dispatcherStep s .start = some s' →
      exec dispatcherStep s' during = some t → .stop ∉ during →
      t.starts[s.starts.length]? = some .resolved → Awake t) ∧
    (∀ d d', Running s d → Running s d' → d = d') ∧
    (∀ (e : DispatcherEvent) d s' during t, e.wakes = true → s.stopped = false →
      Running s d → dispatcherStep s e = some s' → exec dispatcherStep s' during = some t →
      .stop ∉ during →
      s.claims < t.claims ∨ (Running t d ∧ during.countP DispatcherEvent.ofDrain ≤ 4 ∧
        ∃ answer u, dispatcherStep t (.drain d answer) = some u)) ∧
    ∀ s' during t after u, dispatcherStep s .stop = some s' →
      exec dispatcherStep s' during = some t → exec dispatcherStep t after = some u →
      .start ∉ during → .start ∉ after → t.stops[s.stops.length]? = some .resolved →
      u.claims = t.claims := by
  have hs := coherent_of_run h
  refine ⟨fun s' during t hstarted hstart hrun hnot hresolved =>
      awake_of_resolved hs hstarted hstart hrun hnot hresolved,
    fun d d' hd hd' => Option.some.inj ((hs.running d hd).2.symm.trans (hs.running d' hd').2),
    fun e d s' during t he hstop hd hstep hrun hnot =>
      claim_of_wake hs he hstop hd hstep hrun hnot,
    fun s' during t after u hstop hrun hafter hduring hnot hresolved =>
      quiet_of_stopped hs hstop hrun hafter hduring hnot hresolved⟩

def dispatcherAfter (es : List DispatcherEvent) : DispatcherState :=
  (exec dispatcherStep newDispatcher es).getD newDispatcher

/-- A run that is accepted goes from where its beginning leads to where all of it leads. -/
theorem exec_dispatcherAfter {es later : List DispatcherEvent}
    (h : (exec dispatcherStep newDispatcher (es ++ later)).isSome = true) :
    exec dispatcherStep (dispatcherAfter es) later = some (dispatcherAfter (es ++ later)) := by
  obtain ⟨t, ht⟩ := Option.isSome_iff_exists.1 h
  have hall : dispatcherAfter (es ++ later) = t := by
    rw [dispatcherAfter, ht]
    rfl
  rw [exec_append, Option.bind_eq_some_iff] at ht
  obtain ⟨m, hm, hlater⟩ := ht
  have hes : dispatcherAfter es = m := by
    rw [dispatcherAfter, hm]
    rfl
  rw [hes, hall, hlater]

theorem step_dispatcherAfter {es : List DispatcherEvent} {e : DispatcherEvent}
    (h : (exec dispatcherStep newDispatcher (es ++ [e])).isSome = true) :
    dispatcherStep (dispatcherAfter es) e = some (dispatcherAfter (es ++ [e])) := by
  have hstep := exec_dispatcherAfter h
  simpa [exec] using hstep

/-- A dispatcher that starts, and is draining a first batch. -/
def firstBatch : List DispatcherEvent :=
  [.start, .retired 0, .listening 0, .drain 0 .opened]

/-- It is told of a row while it reads when the next one is due. -/
def toldInTime : List DispatcherEvent :=
  [.drain 0 (.drained 50 0), .drain 0 (.pending none)]

def stoppedInTime : List DispatcherEvent :=
  [.drain 0 .failed, .drain 0 .resumed, .awaited 0, .unlistened 0]

theorem dispatcher_wakes_first_batch :
    Awake (dispatcherAfter firstBatch) ∧
    ((dispatcherAfter firstBatch).claims <
        (dispatcherAfter (firstBatch ++ [.notification] ++ toldInTime)).claims ∨
      (Running (dispatcherAfter (firstBatch ++ [.notification] ++ toldInTime)) 0 ∧
        toldInTime.countP DispatcherEvent.ofDrain ≤ 4 ∧
        ∃ answer u, dispatcherStep (dispatcherAfter (firstBatch ++ [.notification] ++ toldInTime))
          (.drain 0 answer) = some u)) ∧
    (dispatcherAfter (firstBatch ++ [.stop] ++ stoppedInTime ++ [.notification])).claims =
      (dispatcherAfter (firstBatch ++ [.stop] ++ stoppedInTime)).claims := by
  have hnew := dispatcher_wakes (exec_nil dispatcherStep newDispatcher)
  have hbatch : exec dispatcherStep newDispatcher firstBatch =
      some (dispatcherAfter firstBatch) := rfl
  have hfirst := dispatcher_wakes hbatch
  have hrunning : Running (dispatcherAfter firstBatch) 0 := ⟨.claiming, rfl, by decide⟩
  refine ⟨?_, ?_, ?_⟩
  · exact hnew.1 _ [.retired 0, .listening 0, .drain 0 .opened] _ rfl rfl rfl (by simp) rfl
  · have htold : dispatcherStep (dispatcherAfter firstBatch) .notification =
        some (dispatcherAfter (firstBatch ++ [.notification])) :=
      step_dispatcherAfter (by decide)
    have hrun : exec dispatcherStep (dispatcherAfter (firstBatch ++ [.notification])) toldInTime =
        some (dispatcherAfter (firstBatch ++ [.notification] ++ toldInTime)) :=
      exec_dispatcherAfter (by decide)
    exact hfirst.2.2.1 .notification 0 _ toldInTime _ rfl rfl hrunning htold hrun
      (by simp [toldInTime])
  · have hstop : dispatcherStep (dispatcherAfter firstBatch) .stop =
        some (dispatcherAfter (firstBatch ++ [.stop])) := step_dispatcherAfter (by decide)
    have hrun : exec dispatcherStep (dispatcherAfter (firstBatch ++ [.stop])) stoppedInTime =
        some (dispatcherAfter (firstBatch ++ [.stop] ++ stoppedInTime)) :=
      exec_dispatcherAfter (by decide)
    have hafter : exec dispatcherStep (dispatcherAfter (firstBatch ++ [.stop] ++ stoppedInTime))
        [.notification] =
          some (dispatcherAfter (firstBatch ++ [.stop] ++ stoppedInTime ++ [.notification])) :=
      exec_dispatcherAfter (by decide)
    exact hfirst.2.2.2 _ stoppedInTime _ [.notification] _ hstop hrun hafter
      (by simp [stoppedInTime]) (by simp) rfl

end CleanStack.Outbox
