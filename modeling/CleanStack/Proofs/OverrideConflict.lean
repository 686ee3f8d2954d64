import CleanStack.Proofs.OverrideLog

/-!
# A conflict has a winner

The statement that closes the open override does not see one that is inserted
while it waits, so the insert after it finds the organization taken, and the
request is answered with a conflict. It says that a colleague has just set an
override, and one has: what the statement has seen is what the log then gives,
or the organization has nothing, until somebody sets another.
-/

namespace CleanStack.Billing

open CleanStack.Admin CleanStack.Drizzle CleanStack.Lib

/-- A set in the organization. -/
def SetsIn (o : String) : OverrideEvent → Prop
  | .set _ _ organizationId _ _ _ => organizationId = o
  | .revoked _ _ _ _ => False

/-- As long as nobody has set an override in the organization. -/
def Undisturbed (o : String) (log : List OverrideEvent) : OverridePhase → Prop
  | .updating seen => ∀ g, grantedAfter o log = some g → seen = some g.overrideId
  | .updated none => grantedAfter o log = none
  | .ended outcome => outcome ≠ .failed alreadySet
  | _ => True

theorem granted_after_other {o : String} {log : List OverrideEvent} {e : OverrideEvent}
    (he : ¬ SetsIn o e) {g : Granted} (h : grantedAfter o (log ++ [e]) = some g) :
    grantedAfter o log = some g := by
  rw [grantedAfter_snoc] at h
  cases e with
  | set actorUserId overrideId organizationId tier expiresAt replaced =>
      have hne : ¬ organizationId = o := he
      rw [grantedStep, if_neg hne] at h
      exact h
  | revoked actorUserId overrideId organizationId tier =>
      by_cases ho : organizationId = o
      · rw [grantedStep, if_pos ho] at h
        cases h
      · rw [grantedStep, if_neg ho] at h
        exact h

theorem Undisturbed.snoc {o : String} {log : List OverrideEvent} {e : OverrideEvent}
    (he : ¬ SetsIn o e) {phase : OverridePhase} (h : Undisturbed o log phase) :
    Undisturbed o (log ++ [e]) phase := by
  cases phase with
  | updating seen => exact fun g hg => h g (granted_after_other he hg)
  | updated closed =>
      cases closed with
      | none =>
          refine Option.eq_none_iff_forall_ne_some.2 fun g hg => ?_
          have hbefore : grantedAfter o log = none := h
          rw [granted_after_other he hg] at hbefore
          cases hbefore
      | some row => trivial
  | opened => trivial
  | inserted closed row => trivial
  | ended outcome => exact h

/-! ## The steps of one transaction -/

/-- Where a step leaves a transaction. -/
inductive PhaseMoves (s : OverrideState) (tx : OverrideTx) : OverridePhase → Prop
  | still : PhaseMoves s tx tx.phase
  | looked : PhaseMoves s tx (.updating
      ((s.overrides.rows.find? (tx.task.closes tx.now)).map PlanOverrideRow.id))
  | updated (seen : Option String) (held : tx.phase = .updating seen) :
      PhaseMoves s tx (OverrideState.updatedPhase tx (s.matching tx seen))
  | conflicted (closed : Option PlanOverrideRow) (held : tx.phase = .updated closed)
      (taken : conflicts s.overrides tx.task.organizationId closed = true) :
      PhaseMoves s tx (.ended (.failed alreadySet))
  | inserted (closed : Option PlanOverrideRow) (row : PlanOverrideRow) :
      PhaseMoves s tx (.inserted closed row)
  | ended (outcome : OverrideOutcome) (other : outcome ≠ .failed alreadySet) :
      PhaseMoves s tx (.ended outcome)

theorem failureOf_ne {tx : OverrideTx} {outcome : OverrideOutcome}
    (h : failureOf tx = some outcome) : outcome ≠ .failed alreadySet := by
  have hstore : ∀ op, OverrideOutcome.failed (overrideStoreFailure op) ≠ .failed alreadySet := by
    intro op hsame
    have hcode : "PLAN_OVERRIDE_PROVIDER_FAILURE" = "ADMIN_PLAN_OVERRIDE_ALREADY_SET_CONFLICT" :=
      congrArg AppError.code (OverrideOutcome.failed.inj hsame)
    exact absurd hcode (by decide)
  unfold failureOf at h
  split at h <;> cases h
  · exact hstore _
  · exact hstore _
  · exact hstore _
  · exact hstore _
  · exact hstore _
  · nofun
  · nofun

/-- A step of one transaction, as another one sees it. -/
theorem tx_after {txs : List OverrideTx} {k j : Nat} {tx tx' : OverrideTx}
    (htx : txs[k]? = some tx) (htx' : txs[j]? = some tx') (phase : OverridePhase) :
    ∃ phase', (txs.set j { tx' with phase })[k]? = some { tx with phase := phase' } ∧
      (phase' = tx.phase ∨ tx' = tx ∧ phase' = phase) := by
  by_cases hj : j = k
  · subst hj
    obtain rfl := Option.some.inj (htx.symm.trans htx')
    exact ⟨phase, List.getElem?_set_self (List.getElem?_eq_some_iff.1 htx).1, .inr ⟨rfl, rfl⟩⟩
  · refine ⟨tx.phase, ?_, .inl rfl⟩
    rw [List.getElem?_set_ne hj]
    exact htx

theorem tx_step {s s' : OverrideState} {e : OverrideStep} (h : overrideStep s e = some s')
    {k : Nat} {tx : OverrideTx} (htx : s.txs[k]? = some tx) :
    ∃ phase, s'.txs[k]? = some { tx with phase } ∧ PhaseMoves s tx phase := by
  have hset : ∀ {j : Nat} {tx' : OverrideTx} {next : OverridePhase}, s.txs[j]? = some tx' →
      PhaseMoves s tx' next → ∃ phase, (s.txs.set j { tx' with phase := next })[k]? =
        some { tx with phase } ∧ PhaseMoves s tx phase := by
    intro j tx' next htx' hmoves
    obtain ⟨phase, hphase, rfl | ⟨rfl, rfl⟩⟩ := tx_after htx htx' next
    · exact ⟨_, hphase, .still⟩
    · exact ⟨_, hphase, hmoves⟩
  have hbegun : ∀ new, ∃ phase, (s.txs ++ [new])[k]? = some { tx with phase } ∧
      PhaseMoves s tx phase := fun new =>
    ⟨tx.phase, (List.getElem?_append_left (List.getElem?_eq_some_iff.1 htx).1).trans htx, .still⟩
  cases e with
  | set actorUserId organizationId tier expiresAt note org now =>
      cases h
      exact hbegun _
  | revoke actorUserId organizationId now =>
      cases h
      exact hbegun _
  | update j =>
      obtain ⟨tx', htx', h⟩ := Option.bind_eq_some_iff.1 h
      split at h
      · cases h
        exact hset htx' .looked
      · cases h
  | updated j =>
      obtain ⟨tx', htx', h⟩ := Option.bind_eq_some_iff.1 h
      split at h
      · next seen hphase =>
          split at h
          · cases h
          · cases h
            exact hset htx' (.updated seen hphase)
      · cases h
  | insert j overrideId =>
      obtain ⟨tx', htx', h⟩ := Option.bind_eq_some_iff.1 h
      split at h
      · next closed actorUserId organizationId tier expiresAt note hphase htask =>
          split at h
          · cases h
          · split at h
            · next htaken =>
                have horg : tx'.task.organizationId = organizationId := by rw [htask]; rfl
                cases h
                exact hset htx' (.conflicted closed hphase (horg ▸ htaken))
            · split at h
              · cases h
              · cases h
                exact hset htx' (.inserted _ _)
      · cases h
  | commit j =>
      obtain ⟨tx', htx', h⟩ := Option.bind_eq_some_iff.1 h
      split at h
      · obtain ⟨overrides, -, rfl⟩ := Option.map_eq_some_iff.1 h
        exact hset htx' (.ended .done (by intro heq; cases heq))
      · cases h
        exact hset htx' (.ended .done (by intro heq; cases heq))
      · cases h
  | fails j =>
      obtain ⟨tx', htx', h⟩ := Option.bind_eq_some_iff.1 h
      obtain ⟨outcome, houtcome, rfl⟩ := Option.map_eq_some_iff.1 h
      exact hset htx' (.ended outcome (failureOf_ne houtcome))

/-- What a step writes to the log. -/
theorem log_step {s s' : OverrideState} {e : OverrideStep} (h : overrideStep s e = some s') :
    s'.log = s.log ∨ ∃ event, s'.log = s.log ++ [event] := by
  cases override_moves h with
  | begun tx unwritten next =>
      subst next
      exact .inl rfl
  | moved k tx phase found unwritten next =>
      subst next
      exact .inl rfl
  | closed k tx row found there matched unlocked next =>
      subst next
      exact .inl rfl
  | inserted k tx actorUserId organizationId tier expiresAt note overrideId closed found phase
      task unwritten free next =>
      subst next
      exact .inl rfl
  | set k tx actorUserId organizationId tier expiresAt note closed row overrides found phase task
      written next =>
      subst next
      exact .inr ⟨_, rfl⟩
  | revoked k tx actorUserId organizationId row found phase task next =>
      subst next
      exact .inr ⟨_, rfl⟩

theorem Consistent.open_of_granted {s : OverrideState} (hs : Consistent s) {o : String}
    {g : Granted} (h : grantedAfter o s.log = some g) :
    ∃ r ∈ s.overrides.rows, isOpenOf o r = true ∧ r.id = g.overrideId := by
  have hopened := hs.opened o
  rw [h, Option.toList_some] at hopened
  have hmem : g ∈ (s.overrides.rows.filter (isOpenOf o)).map PlanOverrideRow.granted := by
    rw [hopened]
    exact List.mem_cons_self
  obtain ⟨r, hr, rfl⟩ := List.mem_map.1 hmem
  obtain ⟨hr, hopen⟩ := List.mem_filter.1 hr
  exact ⟨r, hr, hopen, rfl⟩

/-- A set of the organization sees what is open, and conflicts with nothing else. -/
theorem undisturbed_moves {s : OverrideState} (hs : Consistent s) {k : Nat} {tx : OverrideTx}
    (htx : s.txs[k]? = some tx) {actorUserId o tier : String} {expiresAt : Time} {note : String}
    (htask : tx.task = .set actorUserId o tier expiresAt note)
    (h : Undisturbed o s.log tx.phase) {phase : OverridePhase} (hmoves : PhaseMoves s tx phase) :
    Undisturbed o s.log phase := by
  have hcloses : tx.task.closes tx.now = isOpenOf o := by rw [htask]; rfl
  have horg : tx.task.organizationId = o := by rw [htask]; rfl
  cases hmoves with
  | still => exact h
  | looked =>
      intro g hg
      obtain ⟨r, hr, hopen, hid⟩ := hs.open_of_granted hg
      rw [hcloses]
      cases hfind : s.overrides.rows.find? (isOpenOf o) with
      | none => exact absurd hopen (List.find?_eq_none.1 hfind r hr)
      | some r' =>
          have hsame := hs.one_open (List.mem_of_find?_eq_some hfind) (List.find?_some hfind) hr
            hopen
          rw [hsame]
          exact congrArg some hid
  | updated seen held =>
      rw [held] at h
      unfold OverrideState.updatedPhase
      rw [htask]
      cases hmatch : s.matching tx seen with
      | some row => trivial
      | none =>
          refine Option.eq_none_iff_forall_ne_some.2 fun g hg => ?_
          obtain ⟨r, hr, hopen, hid⟩ := hs.open_of_granted hg
          have hseen : seen = some r.id := (h g hg).trans (congrArg some hid.symm)
          have hfind : s.overrides.find? r.id = some r := Table.find?_eq_some.2 ⟨hr, rfl⟩
          rw [OverrideState.matching, hseen, Option.bind_some, hfind, hcloses, Option.filter_some,
            if_pos hopen] at hmatch
          cases hmatch
  | conflicted closed held taken =>
      rw [held] at h
      obtain ⟨r, hr, htest⟩ := List.any_eq_true.1 taken
      obtain ⟨hopen, hother⟩ := Bool.and_eq_true_iff.1 htest
      rw [horg] at hopen
      cases closed with
      | none =>
          have hnone : grantedAfter o s.log = none := h
          rw [hs.granted_of_open hr hopen] at hnone
          cases hnone
      | some row =>
          have hclosed : tx.closed = some row := by rw [OverrideTx.closed, held]
          obtain ⟨hmem, hopen'⟩ := hs.closed k tx row htx hclosed
          rw [horg] at hopen'
          have hid : row.id ≠ r.id := of_decide_eq_true hother
          exact absurd (congrArg PlanOverrideRow.id (hs.one_open hmem hopen' hr hopen)) hid
  | inserted closed row => trivial
  | ended outcome other => exact other

variable {m u : OverrideState} {es fs : List OverrideStep}

/-- A set that is answered with a conflict has lost to another one: since it
began, an override was set in its organization. -/
theorem conflict_after_set (h : exec overrideStep noOverrides es = some m) {k : Nat}
    {tx tx' : OverrideTx} {actorUserId o tier : String} {expiresAt : Time} {note : String}
    (htx : m.txs[k]? = some tx) (htask : tx.task = .set actorUserId o tier expiresAt note)
    (hopened : tx.phase = .opened) (h' : exec overrideStep m fs = some u)
    (htx' : u.txs[k]? = some tx') (hended : tx'.phase = .ended (.failed alreadySet)) :
    ∃ more, u.log = m.log ++ more ∧ ∃ e ∈ more, SetsIn o e := by
  have hstep : ∀ s e s', (Consistent s ∧ ∃ more, s.log = m.log ++ more ∧
        ((∃ e ∈ more, SetsIn o e) ∨ ∃ now phase, s.txs[k]? = some ⟨tx.task, now, phase⟩ ∧
          Undisturbed o s.log phase)) → overrideStep s e = some s' →
      Consistent s' ∧ ∃ more, s'.log = m.log ++ more ∧
        ((∃ e ∈ more, SetsIn o e) ∨ ∃ now phase, s'.txs[k]? = some ⟨tx.task, now, phase⟩ ∧
          Undisturbed o s'.log phase) := by
    rintro s e s' ⟨hs, more, hmore, hlost⟩ hs'
    refine ⟨consistent_step hs hs', ?_⟩
    have hnext : (∃ e ∈ more, SetsIn o e) ∨ ∃ now phase,
        s'.txs[k]? = some ⟨tx.task, now, phase⟩ ∧ Undisturbed o s.log phase := by
      rcases hlost with hset | ⟨now, phase, hk, hcalm⟩
      · exact .inl hset
      · obtain ⟨phase', hk', hmoves⟩ := tx_step hs' hk
        exact .inr ⟨now, phase', hk', undisturbed_moves hs hk htask hcalm hmoves⟩
    rcases log_step hs' with hlog | ⟨event, hlog⟩
    · rw [hlog]
      exact ⟨more, hmore, hnext⟩
    · refine ⟨more ++ [event], by rw [hlog, hmore, List.append_assoc], ?_⟩
      by_cases hevent : SetsIn o event
      · exact .inl ⟨event, List.mem_append_right _ List.mem_cons_self, hevent⟩
      · rcases hnext with ⟨e', he', hset⟩ | ⟨now, phase, hk, hcalm⟩
        · exact .inl ⟨e', List.mem_append_left _ he', hset⟩
        · rw [hlog]
          exact .inr ⟨now, phase, hk, hcalm.snoc hevent⟩
  have hstart : Undisturbed o m.log tx.phase := by
    rw [hopened]
    trivial
  have hinv := runs_inv hstep ⟨consistent_run h, [], (List.append_nil _).symm,
    .inr ⟨tx.now, tx.phase, htx, hstart⟩⟩ h'
  obtain ⟨-, more, hmore, hset | ⟨now, phase, hk, hcalm⟩⟩ := hinv
  · exact ⟨more, hmore, hset⟩
  · obtain rfl := Option.some.inj (hk.symm.trans htx')
    obtain rfl : phase = .ended (.failed alreadySet) := hended
    exact absurd rfl hcalm

/-- Two sets begin while an override is open. -/
def bothBegun : List OverrideStep :=
  [setBy "ann" "pro" 100, .update 0, .updated 0, .insert 0 "o1", .commit 0,
    setBy "bob" "pro" 200, setBy "cat" "business" 300]

/-- Both see it, and the second waits for the first. -/
def secondWaits : List OverrideStep :=
  [.update 1, .updated 1, .update 2, .insert 1 "o2", .commit 1, .updated 2, .insert 2 "o3"]

theorem second_loses_to_first : ∃ m u tx', exec overrideStep noOverrides bothBegun = some m ∧
    exec overrideStep m secondWaits = some u ∧ u.txs[2]? = some tx' ∧
      tx'.phase = .ended (.failed alreadySet) ∧
        ∃ more, u.log = m.log ++ more ∧ ∃ e ∈ more, SetsIn "acme" e := by
  have hrun : (exec overrideStep noOverrides bothBegun).bind (fun m =>
      (exec overrideStep m secondWaits).bind fun u => m.txs[2]?.bind fun tx =>
        u.txs[2]?.map fun tx' => (tx.task, tx.phase, tx'.phase)) =
      some (.set "cat" "acme" "business" 300 "Pilot", .opened, .ended (.failed alreadySet)) := by
    decide
  obtain ⟨m, hm, hrest⟩ := Option.bind_eq_some_iff.1 hrun
  obtain ⟨u, hu, hrest⟩ := Option.bind_eq_some_iff.1 hrest
  obtain ⟨tx, htx, hrest⟩ := Option.bind_eq_some_iff.1 hrest
  obtain ⟨tx', htx', hview⟩ := Option.map_eq_some_iff.1 hrest
  simp only [Prod.mk.injEq] at hview
  obtain ⟨htask, hopened, hended⟩ := hview
  exact ⟨m, u, tx', hm, hu, htx', hended,
    conflict_after_set hm htx htask hopened hu htx' hended⟩

end CleanStack.Billing
