import CleanStack.Billing.PlanOverrides

/-!
# The log of overrides is their history

Two sets may close one row, or none, and insert at once; a revocation may come
in between. Whoever has written in an organization keeps the others out of it
until the transaction ends, so the events of an organization are in the order of
what they did. Read from the start they give the override that is open, and each
says what was open before it.

`Consistent` carries the run. It speaks of the committed rows and the log, and
of what a transaction that has written may rely on.
-/

namespace CleanStack.Billing

open CleanStack.Admin CleanStack.Drizzle CleanStack.Lib

/-! ## Reading the log -/

/-- What a set gives an organization. -/
structure Granted where
  overrideId : String
  tier : String
  expiresAt : Time
  deriving DecidableEq, Repr

def PlanOverrideRow.granted (r : PlanOverrideRow) : Granted := ⟨r.id, r.tier, r.expiresAt⟩

def grantedStep (o : String) (g : Option Granted) : OverrideEvent → Option Granted
  | .set _ overrideId organizationId tier expiresAt _ =>
      if organizationId = o then some ⟨overrideId, tier, expiresAt⟩ else g
  | .revoked _ _ organizationId _ => if organizationId = o then none else g

/-- What the organization has after these events. -/
def grantedAfter (o : String) (log : List OverrideEvent) : Option Granted :=
  log.foldl (grantedStep o) none

/-- The event names what was there before it. -/
def Follows (before : List OverrideEvent) : OverrideEvent → Prop
  | .set _ _ organizationId _ _ replacedOverrideId =>
      replacedOverrideId = (grantedAfter organizationId before).map Granted.overrideId
  | .revoked _ overrideId organizationId tier =>
      (grantedAfter organizationId before).map (fun g => (g.overrideId, g.tier)) =
        some (overrideId, tier)

def Chained (log : List OverrideEvent) : Prop :=
  ∀ before e after, log = before ++ e :: after → Follows before e

theorem grantedAfter_snoc (o : String) (log : List OverrideEvent) (e : OverrideEvent) :
    grantedAfter o (log ++ [e]) = grantedStep o (grantedAfter o log) e := by
  rw [grantedAfter, List.foldl_append]
  rfl

theorem Chained.snoc {log : List OverrideEvent} (h : Chained log) {e : OverrideEvent}
    (he : Follows log e) : Chained (log ++ [e]) := by
  intro before e' after hsplit
  rcases List.eq_nil_or_concat after with rfl | ⟨init, last, rfl⟩
  · obtain ⟨rfl, hlast⟩ := List.append_inj' hsplit rfl
    cases hlast
    exact he
  · rw [List.concat_eq_append, ← List.cons_append, ← List.append_assoc] at hsplit
    exact h before e' init (List.append_inj' hsplit rfl).1

/-! ## What a transaction that has written may rely on -/

structure Consistent (s : OverrideState) : Prop where
  chained : Chained s.log
  opened : ∀ o, (s.overrides.rows.filter (isOpenOf o)).map PlanOverrideRow.granted =
    (grantedAfter o s.log).toList
  closed : ∀ (k : Nat) (tx : OverrideTx) row, s.txs[k]? = some tx → tx.closed = some row →
    row ∈ s.overrides.rows ∧ isOpenOf tx.task.organizationId row = true
  inserted : ∀ (k : Nat) (tx : OverrideTx) closed row, s.txs[k]? = some tx →
    tx.phase = .inserted closed row →
    (∃ actorUserId organizationId tier expiresAt note,
      tx.task = .set actorUserId organizationId tier expiresAt note ∧
        row = ⟨row.id, organizationId, tier, expiresAt, note, actorUserId, tx.now, none⟩) ∧
      ∀ r ∈ s.overrides.rows, isOpenOf tx.task.organizationId r = true → closed = some r
  alone : ∀ (k j : Nat) (tx tx' : OverrideTx), s.txs[k]? = some tx → s.txs[j]? = some tx' →
    tx.hasWritten = true → tx'.hasWritten = true →
    tx.task.organizationId = tx'.task.organizationId → k = j

/-- An organization has one open override at most. -/
theorem Consistent.one_open {s : OverrideState} (hs : Consistent s) {o : String}
    {r r' : PlanOverrideRow} (hr : r ∈ s.overrides.rows) (hopen : isOpenOf o r = true)
    (hr' : r' ∈ s.overrides.rows) (hopen' : isOpenOf o r' = true) : r = r' := by
  have hmem := List.mem_filter.2 ⟨hr, hopen⟩
  have hmem' := List.mem_filter.2 ⟨hr', hopen'⟩
  have hlength : (s.overrides.rows.filter (isOpenOf o)).length ≤ 1 := by
    rw [← List.length_map PlanOverrideRow.granted, hs.opened o]
    cases grantedAfter o s.log <;> simp
  cases hrows : s.overrides.rows.filter (isOpenOf o) with
  | nil =>
      rw [hrows] at hmem
      cases hmem
  | cons a rest =>
      rw [hrows] at hmem hmem' hlength
      obtain rfl : rest = [] := by simpa using hlength
      rw [List.mem_singleton.1 hmem, List.mem_singleton.1 hmem']

/-- The open row, and what the log says of it. -/
theorem Consistent.granted_of_open {s : OverrideState} (hs : Consistent s) {o : String}
    {r : PlanOverrideRow} (hr : r ∈ s.overrides.rows) (hopen : isOpenOf o r = true) :
    grantedAfter o s.log = some r.granted := by
  have hmem := List.mem_map_of_mem (f := PlanOverrideRow.granted) (List.mem_filter.2 ⟨hr, hopen⟩)
  rw [hs.opened o, Option.mem_toList] at hmem
  exact hmem

theorem Consistent.granted_none {s : OverrideState} (hs : Consistent s) {o : String}
    (hnone : ∀ r ∈ s.overrides.rows, ¬ isOpenOf o r = true) : grantedAfter o s.log = none := by
  have hempty : s.overrides.rows.filter (isOpenOf o) = [] := List.filter_eq_nil_iff.2 hnone
  have hopened := hs.opened o
  rw [hempty, List.map_nil] at hopened
  exact Option.toList_eq_nil_iff.1 hopened.symm

/-! ## Moves -/

theorem not_otherHas {txs : List OverrideTx} {k : Nat} {p : OverrideTx → Bool}
    (h : ¬ otherHas txs k p = true) {j : Nat} {tx : OverrideTx} (htx : txs[j]? = some tx)
    (hp : p tx = true) : j = k := by
  by_contra hne
  refine h (List.any_eq_true.2 ⟨j, List.mem_range.2 (List.getElem?_eq_some_iff.1 htx).1, ?_⟩)
  rw [htx, Option.any_some, hp, Bool.and_true]
  exact decide_eq_true hne

/-- The row a statement has seen matches still. -/
theorem mem_of_matching {s : OverrideState} {tx : OverrideTx} {seen : Option String}
    {row : PlanOverrideRow} (h : s.matching tx seen = some row) :
    seen = some row.id ∧ row ∈ s.overrides.rows ∧ tx.task.closes tx.now row = true := by
  obtain ⟨hbind, hmatch⟩ := Option.filter_eq_some_iff.1 h
  obtain ⟨id, rfl, hfind⟩ := Option.bind_eq_some_iff.1 hbind
  obtain ⟨hmem, hkey⟩ := Table.find?_eq_some.1 hfind
  exact ⟨congrArg some hkey.symm, hmem, hmatch⟩

theorem isOpen_of_closes {task : OverrideTask} {now : Time} {r : PlanOverrideRow}
    (h : task.closes now r = true) : isOpenOf task.organizationId r = true := by
  cases task with
  | set => exact h
  | revoke => exact (Bool.and_eq_true_iff.1 h).1

/-- What a step does. -/
inductive OverrideMoves (s : OverrideState) (e : OverrideStep) (s' : OverrideState) : Prop
  | begun (tx : OverrideTx) (unwritten : tx.hasWritten = false)
      (next : s' = { s with txs := s.txs ++ [tx] })
  | moved (k : Nat) (tx : OverrideTx) (phase : OverridePhase) (found : s.txs[k]? = some tx)
      (unwritten : ({ tx with phase } : OverrideTx).hasWritten = false)
      (next : s' = s.setPhase k tx phase)
  | closed (k : Nat) (tx : OverrideTx) (row : PlanOverrideRow) (found : s.txs[k]? = some tx)
      (there : row ∈ s.overrides.rows) (matched : tx.task.closes tx.now row = true)
      (unlocked : ¬ otherHas s.txs k (closesRow row.id) = true)
      (next : s' = s.setPhase k tx (.updated (some row)))
  | inserted (k : Nat) (tx : OverrideTx) (actorUserId organizationId tier : String)
      (expiresAt : Time) (note overrideId : String) (closed : Option PlanOverrideRow)
      (found : s.txs[k]? = some tx) (phase : tx.phase = .updated closed)
      (task : tx.task = .set actorUserId organizationId tier expiresAt note)
      (unwritten : ¬ otherHas s.txs k (writesIn organizationId) = true)
      (free : ¬ conflicts s.overrides organizationId closed = true)
      (next : s' = s.setPhase k tx (.inserted closed
        ⟨overrideId, organizationId, tier, expiresAt, note, actorUserId, tx.now, none⟩))
  | set (k : Nat) (tx : OverrideTx) (actorUserId organizationId tier : String)
      (expiresAt : Time) (note : String) (closed : Option PlanOverrideRow) (row : PlanOverrideRow)
      (overrides : Table PlanOverrideRow)
      (found : s.txs[k]? = some tx) (phase : tx.phase = .inserted closed row)
      (task : tx.task = .set actorUserId organizationId tier expiresAt note)
      (written : (s.closeRow tx closed).insert row = some overrides)
      (next : s' = { s.setPhase k tx (.ended .done) with
        overrides
        log := s.log ++ [.set actorUserId row.id organizationId tier expiresAt
          (closed.map PlanOverrideRow.id)] })
  | revoked (k : Nat) (tx : OverrideTx) (actorUserId organizationId : String)
      (row : PlanOverrideRow) (found : s.txs[k]? = some tx) (phase : tx.phase = .updated (some row))
      (task : tx.task = .revoke actorUserId organizationId)
      (next : s' = { s.setPhase k tx (.ended .done) with
        overrides := s.closeRow tx (some row)
        log := s.log ++ [.revoked actorUserId row.id organizationId row.tier] })

theorem startPhase_unwritten (task : OverrideTask) (now : Time) (org : Except AppError Bool) :
    (⟨task, now, OverrideState.startPhase org⟩ : OverrideTx).hasWritten = false := by
  unfold OverrideState.startPhase
  split <;> rfl

theorem updatedPhase_none (tx : OverrideTx) :
    ({ tx with phase := OverrideState.updatedPhase tx none } : OverrideTx).hasWritten = false := by
  unfold OverrideState.updatedPhase
  split <;> rfl

theorem updatedPhase_some (tx : OverrideTx) (row : PlanOverrideRow) :
    OverrideState.updatedPhase tx (some row) = .updated (some row) := by
  unfold OverrideState.updatedPhase
  split
  · next h => cases h
  · rfl

theorem override_moves {s s' : OverrideState} {e : OverrideStep} (h : overrideStep s e = some s') :
    OverrideMoves s e s' := by
  cases e with
  | set actorUserId organizationId tier expiresAt note org now =>
      cases h
      exact .begun _ (startPhase_unwritten _ _ _) rfl
  | revoke actorUserId organizationId now =>
      cases h
      exact .begun _ rfl rfl
  | update k =>
      obtain ⟨tx, htx, h⟩ := Option.bind_eq_some_iff.1 h
      split at h
      · cases h
        exact .moved k tx _ htx rfl rfl
      · cases h
  | updated k =>
      obtain ⟨tx, htx, h⟩ := Option.bind_eq_some_iff.1 h
      split at h
      · next seen _ =>
          split at h
          · cases h
          · next hunlocked =>
              obtain rfl := Option.some.inj h
              cases hmatch : s.matching tx seen with
              | none => exact .moved k tx _ htx (updatedPhase_none tx) rfl
              | some row =>
                  obtain ⟨rfl, hmem, hcloses⟩ := mem_of_matching hmatch
                  exact .closed k tx row htx hmem hcloses hunlocked
                    (congrArg (s.setPhase k tx) (updatedPhase_some tx row))
      · cases h
  | insert k overrideId =>
      obtain ⟨tx, htx, h⟩ := Option.bind_eq_some_iff.1 h
      split at h
      · next closed actorUserId organizationId tier expiresAt note hphase htask =>
          split at h
          · cases h
          · next hwritten =>
              split at h
              · cases h
                exact .moved k tx _ htx rfl rfl
              · next hfree =>
                  split at h
                  · cases h
                  · cases h
                    exact .inserted k tx actorUserId organizationId tier expiresAt note overrideId
                      closed htx hphase htask hwritten hfree rfl
      · cases h
  | commit k =>
      obtain ⟨tx, htx, h⟩ := Option.bind_eq_some_iff.1 h
      split at h
      · next closed row actorUserId organizationId tier expiresAt note hphase htask =>
          obtain ⟨overrides, hinsert, rfl⟩ := Option.map_eq_some_iff.1 h
          exact .set k tx actorUserId organizationId tier expiresAt note closed row overrides htx
            hphase htask hinsert rfl
      · next row actorUserId organizationId hphase htask =>
          cases h
          exact .revoked k tx actorUserId organizationId row htx hphase htask rfl
      · cases h
  | fails k =>
      obtain ⟨tx, htx, h⟩ := Option.bind_eq_some_iff.1 h
      obtain ⟨outcome, -, rfl⟩ := Option.map_eq_some_iff.1 h
      exact .moved k tx _ htx rfl rfl

/-! ## Each move -/

theorem closed_written {tx : OverrideTx} {row : PlanOverrideRow} (h : tx.closed = some row) :
    tx.hasWritten = true := by
  obtain ⟨task, now, phase⟩ := tx
  cases phase with
  | updated closed =>
      obtain rfl : closed = some row := h
      rfl
  | inserted closed row => rfl
  | _ => cases h

theorem inserted_written {tx : OverrideTx} {closed : Option PlanOverrideRow}
    {row : PlanOverrideRow} (h : tx.phase = .inserted closed row) : tx.hasWritten = true := by
  rw [OverrideTx.hasWritten, h]

/-- The transactions after one has moved to a phase that holds nothing. -/
theorem written_of_set {txs : List OverrideTx} {k j : Nat} {old tx : OverrideTx}
    (hold : old.hasWritten = false) (htx : (txs.set k old)[j]? = some tx)
    (hwritten : tx.hasWritten = true) : j ≠ k ∧ txs[j]? = some tx := by
  rcases getElem?_set_cases htx with ⟨-, rfl⟩ | h
  · rw [hold] at hwritten
    cases hwritten
  · exact h

/-- A step that neither commits nor writes. -/
theorem Consistent.fewer {s s' : OverrideState} (hs : Consistent s)
    (overrides : s'.overrides = s.overrides) (log : s'.log = s.log)
    (htxs : ∀ (k : Nat) (tx : OverrideTx), s'.txs[k]? = some tx → tx.hasWritten = true →
      s.txs[k]? = some tx) :
    Consistent s' where
  chained := log ▸ hs.chained
  opened o := by rw [overrides, log, hs.opened]
  closed k tx row htx hrow := by
    rw [overrides]
    exact hs.closed k tx row (htxs k tx htx (closed_written hrow)) hrow
  inserted k tx closed row htx hphase := by
    rw [overrides]
    exact hs.inserted k tx closed row (htxs k tx htx (inserted_written hphase)) hphase
  alone k j tx tx' htx htx' hw hw' horg :=
    hs.alone k j tx tx' (htxs k tx htx hw) (htxs j tx' htx' hw') hw hw' horg

/-- Once one has moved, it is still the only one that has written for its organization. -/
theorem Consistent.alone_set {s : OverrideState} (hs : Consistent s) {k : Nat}
    {moved : OverrideTx}
    (hother : ∀ (j : Nat) (tx : OverrideTx), s.txs[j]? = some tx → tx.hasWritten = true →
      tx.task.organizationId = moved.task.organizationId → j = k) (i j : Nat)
    (tx₁ tx₂ : OverrideTx) (h₁ : (s.txs.set k moved)[i]? = some tx₁)
    (h₂ : (s.txs.set k moved)[j]? = some tx₂) (hw₁ : tx₁.hasWritten = true)
    (hw₂ : tx₂.hasWritten = true)
    (horg : tx₁.task.organizationId = tx₂.task.organizationId) : i = j := by
  rcases getElem?_set_cases h₁ with ⟨rfl, rfl⟩ | ⟨-, hold⟩
  · rcases getElem?_set_cases h₂ with ⟨rfl, -⟩ | ⟨-, h₂⟩
    · rfl
    · exact (hother j tx₂ h₂ hw₂ horg.symm).symm
  · rcases getElem?_set_cases h₂ with ⟨heq, rfl⟩ | ⟨-, h₂⟩
    · rw [heq]
      exact hother i tx₁ hold hw₁ horg
    · exact hs.alone i j tx₁ tx₂ hold h₂ hw₁ hw₂ horg

theorem Consistent.closing {s : OverrideState} (hs : Consistent s) {k : Nat} {tx : OverrideTx}
    {row : PlanOverrideRow} (there : row ∈ s.overrides.rows)
    (matched : tx.task.closes tx.now row = true)
    (unlocked : ¬ otherHas s.txs k (closesRow row.id) = true) :
    Consistent (s.setPhase k tx (.updated (some row))) := by
  have hopen := isOpen_of_closes matched
  -- whoever else has written there has closed the row, or has found none
  have hother : ∀ j tx', s.txs[j]? = some tx' → tx'.hasWritten = true →
      tx'.task.organizationId = tx.task.organizationId → j = k := by
    intro j tx' htx' hwritten horg
    have hrow : tx'.closed = some row := by
      unfold OverrideTx.hasWritten at hwritten
      split at hwritten
      · next closed hphase =>
          obtain ⟨row', rfl⟩ := Option.isSome_iff_exists.1 hwritten
          have hclosed : tx'.closed = some row' := by rw [OverrideTx.closed, hphase]
          obtain ⟨hmem, hopen'⟩ := hs.closed j tx' row' htx' hclosed
          rw [horg] at hopen'
          rw [hclosed, hs.one_open hmem hopen' there hopen]
      · next closed inserted hphase =>
          have hclosed : tx'.closed = closed := by rw [OverrideTx.closed, hphase]
          rw [hclosed]
          exact (hs.inserted j tx' closed inserted htx' hphase).2 row there (horg ▸ hopen)
      · cases hwritten
    refine not_otherHas unlocked htx' ?_
    rw [closesRow, hrow, Option.any_some]
    exact decide_eq_true rfl
  refine ⟨hs.chained, hs.opened, fun j tx' row' htx' hclosed => ?_,
    fun j tx' closed row' htx' hphase => ?_, hs.alone_set hother⟩
  · rcases getElem?_set_cases htx' with ⟨-, rfl⟩ | ⟨-, htx'⟩
    · obtain rfl : row = row' := Option.some.inj hclosed
      exact ⟨there, hopen⟩
    · exact hs.closed j tx' row' htx' hclosed
  · rcases getElem?_set_cases htx' with ⟨-, rfl⟩ | ⟨-, htx'⟩
    · cases hphase
    · exact hs.inserted j tx' closed row' htx' hphase

theorem Consistent.inserting {s : OverrideState} (hs : Consistent s) {k : Nat} {tx : OverrideTx}
    {actorUserId organizationId tier : String} {expiresAt : Time} {note overrideId : String}
    {closed : Option PlanOverrideRow} (found : s.txs[k]? = some tx)
    (phase : tx.phase = .updated closed)
    (task : tx.task = .set actorUserId organizationId tier expiresAt note)
    (unwritten : ¬ otherHas s.txs k (writesIn organizationId) = true)
    (free : ¬ conflicts s.overrides organizationId closed = true) :
    Consistent (s.setPhase k tx (.inserted closed
      ⟨overrideId, organizationId, tier, expiresAt, note, actorUserId, tx.now, none⟩)) := by
  have hclosed : tx.closed = closed := by rw [OverrideTx.closed, phase]
  have horg : tx.task.organizationId = organizationId := by rw [task]; rfl
  have hother : ∀ j tx', s.txs[j]? = some tx' → tx'.hasWritten = true →
      tx'.task.organizationId = organizationId → j = k := by
    intro j tx' htx' hwritten hsame
    refine not_otherHas unwritten htx' ?_
    rw [writesIn, hwritten, Bool.and_true]
    exact decide_eq_true hsame
  have hfree : ∀ r ∈ s.overrides.rows, isOpenOf organizationId r = true → closed = some r := by
    intro r hr hopen
    cases hc : closed with
    | none =>
        rw [hc] at free
        exact absurd (List.any_eq_true.2 ⟨r, hr, by rw [hopen]; rfl⟩) free
    | some row =>
        obtain ⟨hmem, hopen'⟩ := hs.closed k tx row found (hclosed.trans hc)
        rw [horg] at hopen'
        rw [hs.one_open hmem hopen' hr hopen]
  refine ⟨hs.chained, hs.opened, fun j tx' row' htx' hrow => ?_,
    fun j tx' closed' row' htx' hphase => ?_,
    hs.alone_set fun j tx' htx' hwritten hsame => hother j tx' htx' hwritten (hsame.trans horg)⟩
  · rcases getElem?_set_cases htx' with ⟨rfl, rfl⟩ | ⟨-, htx'⟩
    · exact hs.closed j tx row' found (hclosed.trans hrow)
    · exact hs.closed j tx' row' htx' hrow
  · rcases getElem?_set_cases htx' with ⟨rfl, rfl⟩ | ⟨-, htx'⟩
    · obtain ⟨rfl, rfl⟩ := OverridePhase.inserted.inj hphase
      exact ⟨⟨actorUserId, organizationId, tier, expiresAt, note, task, rfl⟩, fun r hr hopen =>
        hfree r hr (horg ▸ hopen)⟩
    · exact hs.inserted j tx' closed' row' htx' hphase

/-- A commit speaks of one organization, and leaves what is open in the others. -/
theorem Consistent.commits {s s' : OverrideState} (hs : Consistent s) {k : Nat} {tx : OverrideTx}
    (found : s.txs[k]? = some tx) (written : tx.hasWritten = true) {e : OverrideEvent}
    (follows : Follows s.log e)
    (txs : s'.txs = s.txs.set k { tx with phase := .ended .done }) (log : s'.log = s.log ++ [e])
    (elsewhere : ∀ o, o ≠ tx.task.organizationId →
      s'.overrides.rows.filter (isOpenOf o) = s.overrides.rows.filter (isOpenOf o) ∧
        grantedStep o (grantedAfter o s.log) e = grantedAfter o s.log)
    (here : (s'.overrides.rows.filter (isOpenOf tx.task.organizationId)).map
        PlanOverrideRow.granted =
      (grantedStep tx.task.organizationId (grantedAfter tx.task.organizationId s.log) e).toList) :
    Consistent s' := by
  have hother : ∀ (j : Nat) (tx' : OverrideTx), s'.txs[j]? = some tx' → tx'.hasWritten = true →
      s.txs[j]? = some tx' ∧ s'.overrides.rows.filter (isOpenOf tx'.task.organizationId) =
        s.overrides.rows.filter (isOpenOf tx'.task.organizationId) := by
    intro j tx' htx' hw
    rw [txs] at htx'
    obtain ⟨hne, htx'⟩ := written_of_set rfl htx' hw
    exact ⟨htx', (elsewhere _ fun horg => hne (hs.alone j k tx' tx htx' found hw written horg)).1⟩
  refine ⟨log ▸ hs.chained.snoc follows, fun o => ?_, fun j tx' row htx' hclosed => ?_,
    fun j tx' closed row htx' hphase => ?_, fun i j tx₁ tx₂ h₁ h₂ hw₁ hw₂ horg => ?_⟩
  · rw [log, grantedAfter_snoc]
    by_cases ho : o = tx.task.organizationId
    · rw [ho]
      exact here
    · obtain ⟨hrows, hgranted⟩ := elsewhere o ho
      rw [hrows, hgranted, hs.opened]
  · obtain ⟨hold, hrows⟩ := hother j tx' htx' (closed_written hclosed)
    obtain ⟨hmem, hopen⟩ := hs.closed j tx' row hold hclosed
    have hkept := List.mem_filter.2 ⟨hmem, hopen⟩
    rw [← hrows] at hkept
    exact List.mem_filter.1 hkept
  · obtain ⟨hold, hrows⟩ := hother j tx' htx' (inserted_written hphase)
    obtain ⟨hfacts, honly⟩ := hs.inserted j tx' closed row hold hphase
    refine ⟨hfacts, fun r hr hopen => ?_⟩
    have hkept := List.mem_filter.2 ⟨hr, hopen⟩
    rw [hrows] at hkept
    exact honly r (List.mem_filter.1 hkept).1 hopen
  · exact hs.alone i j tx₁ tx₂ (hother i tx₁ h₁ hw₁).1 (hother j tx₂ h₂ hw₂).1 hw₁ hw₂ horg

theorem closedRow_shut (o : String) (now : Time) (r : PlanOverrideRow) :
    isOpenOf o (closedRow now r) = false := by
  simp [isOpenOf, closedRow]

/-- The rows that are open once one is closed. -/
theorem filter_closeRow (s : OverrideState) (tx : OverrideTx) (closed : Option PlanOverrideRow)
    (o : String) : (s.closeRow tx closed).rows.filter (isOpenOf o) =
      s.overrides.rows.filter fun r => isOpenOf o r && !closed.any fun c => c.id = r.id :=
  Table.filter_update_out (key_closedRow tx.now) fun r _ => closedRow_shut o tx.now r

theorem filter_elsewhere {s : OverrideState} (hs : Consistent s) {k : Nat} {tx : OverrideTx}
    (found : s.txs[k]? = some tx) {o : String} (ho : o ≠ tx.task.organizationId) :
    (s.closeRow tx tx.closed).rows.filter (isOpenOf o) =
      s.overrides.rows.filter (isOpenOf o) := by
  rw [filter_closeRow]
  refine List.filter_congr fun r hr => ?_
  cases hopen : isOpenOf o r with
  | false => rfl
  | true =>
      cases hclosed : tx.closed with
      | none => rfl
      | some row =>
          obtain ⟨hmem, hopen'⟩ := hs.closed k tx row found hclosed
          have hne : row.id ≠ r.id := by
            intro hid
            obtain rfl : row = r := Table.eq_of_key hmem hr hid
            have horg := of_decide_eq_true (Bool.and_eq_true_iff.1 hopen).1
            have horg' := of_decide_eq_true (Bool.and_eq_true_iff.1 hopen').1
            exact ho (horg.symm.trans horg')
          simp [hne]

theorem filter_here {s : OverrideState} {tx : OverrideTx}
    (honly : ∀ r ∈ s.overrides.rows, isOpenOf tx.task.organizationId r = true →
      tx.closed = some r) :
    (s.closeRow tx tx.closed).rows.filter (isOpenOf tx.task.organizationId) = [] := by
  rw [filter_closeRow]
  refine List.filter_eq_nil_iff.2 fun r hr htest => ?_
  obtain ⟨hopen, hkept⟩ := Bool.and_eq_true_iff.1 htest
  rw [honly r hr hopen] at hkept
  simp at hkept

theorem Consistent.setting {s : OverrideState} (hs : Consistent s) {k : Nat} {tx : OverrideTx}
    {actorUserId organizationId tier : String} {expiresAt : Time} {note : String}
    {closed : Option PlanOverrideRow} {row : PlanOverrideRow} {overrides : Table PlanOverrideRow}
    (found : s.txs[k]? = some tx) (phase : tx.phase = .inserted closed row)
    (task : tx.task = .set actorUserId organizationId tier expiresAt note)
    (written : (s.closeRow tx closed).insert row = some overrides) :
    Consistent { s.setPhase k tx (.ended .done) with
      overrides
      log := s.log ++ [.set actorUserId row.id organizationId tier expiresAt
        (closed.map PlanOverrideRow.id)] } := by
  have hclosed : tx.closed = closed := by rw [OverrideTx.closed, phase]
  have horg : tx.task.organizationId = organizationId := by rw [task]; rfl
  obtain ⟨⟨actor, org, tier', expiry, note', htask, hrow⟩, honly⟩ :=
    hs.inserted k tx closed row found phase
  rw [task] at htask
  obtain ⟨rfl, rfl, rfl, rfl, rfl⟩ := OverrideTask.set.inj htask
  have hopen : isOpenOf organizationId row = true := by rw [hrow]; simp [isOpenOf]
  have hgranted : row.granted = ⟨row.id, tier, expiresAt⟩ := by rw [hrow]; rfl
  have hrows := Table.rows_insert written
  rw [← hclosed] at hrows honly
  refine hs.commits found (inserted_written phase) ?_ rfl rfl (fun o ho => ⟨?_, ?_⟩) ?_
  · show closed.map PlanOverrideRow.id = _
    cases hc : closed with
    | none =>
        have hnone := hs.granted_none (o := organizationId) fun r hr hopen' => by
          have hsame := honly r hr (horg ▸ hopen')
          rw [hclosed, hc] at hsame
          cases hsame
        rw [hnone]
        rfl
    | some old =>
        obtain ⟨hmem, hopen'⟩ := hs.closed k tx old found (hclosed.trans hc)
        rw [hs.granted_of_open hmem (horg ▸ hopen')]
        rfl
  · have hshut : isOpenOf o row = false := by
      rw [hrow]
      simp [isOpenOf, Ne.symm (horg ▸ ho)]
    show overrides.rows.filter (isOpenOf o) = _
    rw [hrows, List.filter_cons_of_neg (by simp [hshut]), filter_elsewhere hs found ho]
  · exact if_neg (Ne.symm (horg ▸ ho))
  · show (overrides.rows.filter _).map _ = _
    rw [hrows, List.filter_cons_of_pos (horg.symm ▸ hopen), filter_here honly, horg, grantedStep,
      if_pos rfl, List.map_singleton, hgranted]
    rfl

theorem Consistent.revoking {s : OverrideState} (hs : Consistent s) {k : Nat} {tx : OverrideTx}
    {actorUserId organizationId : String} {row : PlanOverrideRow} (found : s.txs[k]? = some tx)
    (phase : tx.phase = .updated (some row)) (task : tx.task = .revoke actorUserId organizationId) :
    Consistent { s.setPhase k tx (.ended .done) with
      overrides := s.closeRow tx (some row)
      log := s.log ++ [.revoked actorUserId row.id organizationId row.tier] } := by
  have hclosed : tx.closed = some row := by rw [OverrideTx.closed, phase]
  have horg : tx.task.organizationId = organizationId := by rw [task]; rfl
  obtain ⟨hmem, hopen⟩ := hs.closed k tx row found hclosed
  have honly : ∀ r ∈ s.overrides.rows, isOpenOf tx.task.organizationId r = true →
      tx.closed = some r := fun r hr hopen' => by
    rw [hclosed, hs.one_open hmem hopen hr hopen']
  rw [← hclosed]
  refine hs.commits found (closed_written hclosed) ?_ rfl rfl (fun o ho => ⟨?_, ?_⟩) ?_
  · show (grantedAfter organizationId s.log).map _ = _
    rw [← horg, hs.granted_of_open hmem hopen]
    rfl
  · exact filter_elsewhere hs found ho
  · exact if_neg (Ne.symm (horg ▸ ho))
  · show ((s.closeRow tx tx.closed).rows.filter _).map _ = _
    rw [filter_here honly, horg, grantedStep, if_pos rfl]
    rfl

theorem consistent_step {s s' : OverrideState} {e : OverrideStep} (hs : Consistent s)
    (h : overrideStep s e = some s') : Consistent s' := by
  cases override_moves h with
  | begun tx unwritten next =>
      subst next
      refine hs.fewer rfl rfl fun j tx' htx' hw => ?_
      rw [List.getElem?_append] at htx'
      split at htx'
      · exact htx'
      · obtain rfl := List.mem_singleton.1 (List.mem_of_getElem? htx')
        rw [unwritten] at hw
        cases hw
  | moved k tx phase found unwritten next =>
      subst next
      exact hs.fewer rfl rfl fun j tx' htx' hw => (written_of_set unwritten htx' hw).2
  | closed k tx row found there matched unlocked next =>
      subst next
      exact hs.closing there matched unlocked
  | inserted k tx actorUserId organizationId tier expiresAt note overrideId closed found phase
      task unwritten free next =>
      subst next
      exact hs.inserting found phase task unwritten free
  | set k tx actorUserId organizationId tier expiresAt note closed row overrides found phase task
      written next =>
      subst next
      exact hs.setting found phase task written
  | revoked k tx actorUserId organizationId row found phase task next =>
      subst next
      exact hs.revoking found phase task

theorem consistent_empty : Consistent noOverrides where
  chained before e after h := by
    cases before with
    | nil => cases h
    | cons => cases h
  opened _ := rfl
  closed k tx row h := by cases h
  inserted k tx closed row h := by cases h
  alone k j tx tx' h := by cases h

variable {u : OverrideState} {es : List OverrideStep}

theorem consistent_run (h : exec overrideStep noOverrides es = some u) : Consistent u :=
  runs_inv (fun _ _ _ hi hs => consistent_step hi hs) consistent_empty h

/-- However sets and revocations interleave: the events of an organization, read
in order, say what is open there, and each says what was open before it. -/
theorem overrides_follow_log (h : exec overrideStep noOverrides es = some u) :
    (∀ o, (u.overrides.rows.filter (isOpenOf o)).map PlanOverrideRow.granted =
        (grantedAfter o u.log).toList) ∧
      ∀ before e after, u.log = before ++ e :: after → Follows before e :=
  ⟨(consistent_run h).opened, (consistent_run h).chained⟩

def setBy (actorUserId tier : String) (expiresAt : Time) : OverrideStep :=
  .set actorUserId "acme" tier expiresAt "Pilot" (.ok true) 10

/-- An override is replaced, and the one that replaces it is revoked. -/
def replacedThenRevoked : List OverrideStep :=
  [setBy "ann" "pro" 100, .update 0, .updated 0, .insert 0 "o1", .commit 0,
    setBy "bob" "business" 200, .update 1, .updated 1, .insert 1 "o2", .commit 1,
    .revoke "ann" "acme" 20, .update 2, .updated 2, .commit 2]

theorem replaced_then_revoked : ∃ u,
    exec overrideStep noOverrides replacedThenRevoked = some u ∧
      u.log = [.set "ann" "o1" "acme" "pro" 100 none,
        .set "bob" "o2" "acme" "business" 200 (some "o1"), .revoked "ann" "o2" "acme" "business"] ∧
        (u.overrides.rows.filter (isOpenOf "acme")).map PlanOverrideRow.granted =
          (grantedAfter "acme" u.log).toList := by
  have hrun : (exec overrideStep noOverrides replacedThenRevoked).map OverrideState.log =
      some [.set "ann" "o1" "acme" "pro" 100 none,
        .set "bob" "o2" "acme" "business" 200 (some "o1"),
        .revoked "ann" "o2" "acme" "business"] := by
    decide
  obtain ⟨u, hu, hlog⟩ := Option.map_eq_some_iff.1 hrun
  exact ⟨u, hu, hlog, (overrides_follow_log hu).1 "acme"⟩

/-! ## What the organization may use -/

/-- The override that is read is the one the log leaves, while it lasts. -/
theorem Consistent.findActive {s : OverrideState} (hs : Consistent s) (o : String) (now : Time) :
    (findActive s.overrides o now).map PlanOverrideRow.granted =
      (grantedAfter o s.log).filter fun g => decide (now < g.expiresAt) := by
  have hboth : activeOf o now = fun r => decide (now < r.granted.expiresAt) && isOpenOf o r :=
    funext fun r => Bool.and_comm _ _
  have hmap : ((s.overrides.rows.filter (isOpenOf o)).filter
      fun r => decide (now < r.granted.expiresAt)).map PlanOverrideRow.granted =
        (grantedAfter o s.log).toList.filter fun g => decide (now < g.expiresAt) := by
    rw [← hs.opened o, List.filter_map]
    rfl
  rw [Billing.findActive, hboth, ← List.head?_filter, ← List.filter_filter, ← List.head?_map, hmap]
  cases grantedAfter o s.log with
  | none => rfl
  | some g =>
      rw [Option.toList_some, Option.filter_some]
      by_cases hlasts : now < g.expiresAt
      · simp [hlasts]
      · simp [hlasts]

theorem viewOf_tier (subscription : Option SubscriptionRow) (overrideTier : Option String)
    (hasSubscription : Bool) : (viewOf subscription overrideTier hasSubscription).tier =
      ((overrideTier.bind tierOf).orElse fun _ =>
        subscription.bind fun row => tierOf row.tier).getD .free := by
  unfold viewOf
  cases overrideTier.bind tierOf with
  | some tier => rfl
  | none =>
      cases subscription with
      | none => rfl
      | some row => rfl

/-- The tier an organization has is the one of its last set, until that expires
or is revoked, and the one of its subscription otherwise; where nothing fails it
does not matter which of the two reads shows it. -/
theorem tier_follows_log (h : exec overrideStep noOverrides es = some u) {o : String} {now : Time}
    {subscription : Option SubscriptionRow} {customer : Except AppError (Option String)}
    {view : EntitlementsView}
    (hview : readEntitlements ⟨.ok ((findActive u.overrides o now).map PlanOverrideRow.tier),
      .ok subscription, customer⟩ = .ok view) :
    getEntitlements ⟨.ok ((findActive u.overrides o now).map PlanOverrideRow.tier),
        .ok subscription, customer⟩ = view ∧
      view.tier = ((((grantedAfter o u.log).filter fun g => decide (now < g.expiresAt)).bind
        fun g => tierOf g.tier).orElse fun _ =>
          subscription.bind fun row => tierOf row.tier).getD .free := by
  refine ⟨getEntitlements_of_read hview, ?_⟩
  cases customer with
  | error error => cases hview
  | ok customer =>
      obtain rfl := Except.ok.inj hview
      rw [viewOf_tier, ← (consistent_run h).findActive o now]
      cases findActive u.overrides o now <;> rfl

theorem tier_while_replaced : ∃ u view,
    exec overrideStep noOverrides (replacedThenRevoked.take 10) = some u ∧
      readEntitlements ⟨.ok ((findActive u.overrides "acme" 150).map PlanOverrideRow.tier),
        .ok (some ⟨"pro", "active"⟩), .ok none⟩ = .ok view ∧
        view.tier = ((((grantedAfter "acme" u.log).filter fun g => decide (150 < g.expiresAt)).bind
          fun g => tierOf g.tier).orElse fun _ =>
            (some (⟨"pro", "active"⟩ : SubscriptionRow)).bind fun row => tierOf row.tier).getD
              .free := by
  have hrun : (exec overrideStep noOverrides (replacedThenRevoked.take 10)).isSome = true := by
    decide
  obtain ⟨u, hu⟩ := Option.isSome_iff_exists.1 hrun
  have hview : readEntitlements
      ⟨.ok ((findActive u.overrides "acme" 150).map PlanOverrideRow.tier),
        .ok (some ⟨"pro", "active"⟩), .ok none⟩ =
          .ok (viewOf (some ⟨"pro", "active"⟩)
            ((findActive u.overrides "acme" 150).map PlanOverrideRow.tier) false) :=
    rfl
  exact ⟨u, _, hu, hview, (tier_follows_log hu hview).2⟩

end CleanStack.Billing
