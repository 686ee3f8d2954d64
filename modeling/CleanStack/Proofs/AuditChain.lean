import CleanStack.Audit.Log
import CleanStack.Lib.HashChain
import CleanStack.Lib.Runs

/-!
# The audit chain as the handlers and the sweep leave it

`verifyChain` accepts a log exactly when its hashed rows are a chain from the
genesis value. An append keeps that: the lock leaves nobody between the read of
the last hash and the insert that names it, and a duplicate is ignored.

The sweep does not. It deletes what is old, and what is old is the front of the
chain, while `verifyChain` starts from the genesis value whatever the first row
left says comes before it. The condition `SparesChain` is what is left of the
promise: a batch that takes hashed rows takes the last ones only, and not while
a handler is about to name one of them.
-/

namespace CleanStack.Audit

open CleanStack.Lib CleanStack.Kit CleanStack.Events

variable {sha256 : String → String}

/-- The hash `verifyChain` recomputes for a row. -/
def digestOf (sha256 : String → String) (r : AuditRow) : String :=
  computeAuditHash sha256 (hashInputOf r)

/-- The rows are a chain from `g`. -/
abbrev Linked (sha256 : String → String) (g : String) (rows : List AuditRow) : Prop :=
  Chained AuditRow.prevHash AuditRow.hash (digestOf sha256) g rows

theorem verifyFrom_verified {n : Nat} {rows : List AuditRow} {prev : String} :
    (verifyFrom sha256 n prev rows).verified = true ↔ Linked sha256 prev rows := by
  induction rows generalizing prev with
  | nil => exact ⟨fun _ => trivial, fun _ => rfl⟩
  | cons r rows ih =>
      rw [verifyFrom, Linked, Chained]
      split
      · next hbroken =>
          refine ⟨fun h => (by cases h), fun hlinked => ?_⟩
          obtain ⟨hprev, hown, -⟩ := hlinked
          rcases hbroken with h | h
          · exact absurd hprev h
          · exact absurd hown h
      · next hok =>
          obtain ⟨hprev, hown⟩ := not_or.1 hok
          rw [ih]
          exact ⟨fun h => ⟨not_not.1 hprev, not_not.1 hown, h⟩, fun h => h.2.2⟩

theorem verified_iff {log : AuditLog} :
    (verifyChain sha256 log).verified = true ↔ Linked sha256 GENESIS_HASH (hashedRows log) :=
  verifyFrom_verified

theorem lastHash_eq {log : AuditLog} (h : Linked sha256 GENESIS_HASH (hashedRows log)) :
    lastHash log = reached (digestOf sha256) GENESIS_HASH (hashedRows log) := by
  have hown := reached_eq_own h
  rw [lastHash, reached]
  cases hlast : (hashedRows log).getLast? with
  | none => rfl
  | some r =>
      rw [hlast, Option.map_some, Option.map_some] at hown
      rw [Option.bind_some, Option.some.inj hown]
      rfl

/-! ## The hashed rows after a write -/

/-- In order, and no two with the same sequence number. -/
abbrev Ascending (rows : List AuditRow) : Prop :=
  rows.Pairwise fun a b => a.sequence < b.sequence

theorem hashedRows_perm (log : AuditLog) :
    (hashedRows log).Perm (log.rows.filter fun r => r.hash.isSome) :=
  List.perm_insertionSort _ _

theorem mem_hashedRows {log : AuditLog} {r : AuditRow} :
    r ∈ hashedRows log ↔ r ∈ log.rows ∧ r.hash.isSome = true := by
  rw [(hashedRows_perm log).mem_iff, List.mem_filter]

theorem hashedRows_eq {log : AuditLog} {rows : List AuditRow}
    (hperm : rows.Perm (log.rows.filter fun r => r.hash.isSome)) (hrows : Ascending rows) :
    hashedRows log = rows := by
  have hsorted : (hashedRows log).Pairwise fun a b => a.sequence ≤ b.sequence :=
    List.pairwise_insertionSort _ _
  have hsame : (hashedRows log).Perm rows := (hashedRows_perm log).trans hperm.symm
  have hnodup : (rows.map AuditRow.sequence).Nodup :=
    List.pairwise_map.2 (hrows.imp Nat.ne_of_lt)
  refine List.Perm.eq_of_pairwise ?_ hsorted (hrows.imp Nat.le_of_lt) hsame
  intro a b ha hb hab hba
  exact List.inj_on_of_nodup_map hnodup (hsame.mem_iff.1 ha) hb (Nat.le_antisymm hab hba)

theorem hashedRows_insert {log log' : AuditLog} {r : AuditRow} (hins : log.insert r = some log')
    (hr : r.hash.isSome = true) (hasc : Ascending (hashedRows log))
    (hlast : ∀ x ∈ hashedRows log, x.sequence < r.sequence) :
    hashedRows log' = hashedRows log ++ [r] := by
  have hrows : log'.rows = r :: log.rows := by
    unfold Table.insert at hins
    split at hins
    · cases hins
    · cases hins
      rfl
  refine hashedRows_eq ?_ ?_
  · rw [hrows, List.filter_cons, if_pos hr]
    exact (List.perm_append_singleton r _).trans ((hashedRows_perm log).cons r)
  · refine List.pairwise_append.2 ⟨hasc, List.pairwise_singleton _ r, fun a ha b hb => ?_⟩
    rw [List.mem_singleton.1 hb]
    exact hlast a ha

theorem hashedRows_delete {log : AuditLog} {gone : AuditRow → Bool}
    (hasc : Ascending (hashedRows log)) :
    hashedRows (log.delete gone) = (hashedRows log).filter fun r => !gone r := by
  refine hashedRows_eq ?_ (hasc.sublist List.filter_sublist)
  have hswap : (log.delete gone).rows.filter (fun r => r.hash.isSome) =
      (log.rows.filter fun r => r.hash.isSome).filter fun r => !gone r := by
    rw [Table.delete, List.filter_filter, List.filter_filter]
    exact List.filter_congr fun r _ => Bool.and_comm _ _
  rw [hswap]
  exact (hashedRows_perm log).filter _

/-- A filter that refuses everything after the first it refuses keeps a prefix. -/
theorem filter_prefix {α : Type*} {keep : α → Bool} {l : List α}
    (h : l.Pairwise fun a b => keep a = false → keep b = false) : l.filter keep <+: l := by
  induction l with
  | nil => exact List.prefix_refl []
  | cons a l ih =>
      obtain ⟨hfirst, hrest⟩ := List.pairwise_cons.1 h
      cases hk : keep a with
      | true =>
          rw [List.filter_cons_of_pos hk]
          exact List.prefix_cons_inj a |>.2 (ih hrest)
      | false =>
          have hnone : l.filter keep = [] :=
            List.filter_eq_nil_iff.2 fun b hb => by rw [hfirst b hb hk]; decide
          rw [List.filter_cons_of_neg (by rw [hk]; decide), hnone]
          exact List.nil_prefix

/-! ## Runs -/

/-- What a batch may take: the end of the chain only, and nothing of it while a
handler is about to name the last hash. -/
def SparesChain (s : AuditState) : AuditEvent → Prop
  | .sweep b =>
      (∀ r ∈ s.log.rows, r.hash.isSome = true → purges s.log b r = true →
        ∀ q ∈ s.log.rows, q.hash.isSome = true → r.sequence < q.sequence →
          purges s.log b q = true) ∧
      ((∃ r ∈ s.log.rows, r.hash.isSome = true ∧ purges s.log b r = true) →
        ∀ a ∈ s.holder, a.prevHash = none)
  | _ => True

instance (s : AuditState) : ∀ e, Decidable (SparesChain s e)
  | .sweep _ => inferInstanceAs (Decidable (_ ∧ _))
  | .lock _ => inferInstanceAs (Decidable True)
  | .readLast => inferInstanceAs (Decidable True)
  | .insert => inferInstanceAs (Decidable True)
  | .fail _ => inferInstanceAs (Decidable True)

structure ChainInv (sha256 : String → String) (s : AuditState) : Prop where
  linked : Linked sha256 GENESIS_HASH (hashedRows s.log)
  ascending : Ascending (hashedRows s.log)
  below : ∀ r ∈ hashedRows s.log, r.sequence < s.nextSequence
  /-- What the holder of the lock read is still the last hash. -/
  held : ∀ a ∈ s.holder, ∀ h ∈ a.prevHash, h = lastHash s.log

theorem chainInv_emptyLog : ChainInv sha256 emptyLog where
  linked := trivial
  ascending := List.Pairwise.nil
  below := fun _ hr => nomatch hr
  held := fun _ ha => nomatch ha

theorem digestOf_auditRow (event : DeliveredEvent) (prevHash : String) (n : Nat) :
    (auditRow sha256 event prevHash n).hash =
      some (digestOf sha256 (auditRow sha256 event prevHash n)) :=
  rfl

theorem chainInv_insert {s : AuditState} {event : DeliveredEvent} {prevHash : String}
    (hi : ChainInv sha256 s) (hholder : s.holder = some ⟨event, some prevHash⟩) :
    ChainInv sha256
      { log := insertOrIgnore s.log (auditRow sha256 event prevHash s.nextSequence)
        nextSequence := s.nextSequence + 1
        holder := none } := by
  have hprev : prevHash = reached (digestOf sha256) GENESIS_HASH (hashedRows s.log) :=
    (hi.held _ hholder prevHash rfl).trans (lastHash_eq hi.linked)
  cases hins : s.log.insert (auditRow sha256 event prevHash s.nextSequence) with
  | none =>
      -- the event has its row already
      have hsame : insertOrIgnore s.log (auditRow sha256 event prevHash s.nextSequence) =
          s.log := by rw [insertOrIgnore, hins, Option.getD_none]
      rw [hsame]
      exact ⟨hi.linked, hi.ascending, fun r hr => Nat.lt_succ_of_lt (hi.below r hr),
        fun _ ha => nomatch ha⟩
  | some log' =>
      have hnew : insertOrIgnore s.log (auditRow sha256 event prevHash s.nextSequence) =
          log' := by rw [insertOrIgnore, hins, Option.getD_some]
      have hrows := hashedRows_insert hins rfl hi.ascending hi.below
      rw [hnew]
      refine ⟨?_, ?_, ?_, fun _ ha => nomatch ha⟩
      · show Linked sha256 GENESIS_HASH (hashedRows log')
        rw [hrows]
        exact chained_concat.2 ⟨hi.linked, congrArg some hprev, digestOf_auditRow _ _ _⟩
      · show Ascending (hashedRows log')
        rw [hrows]
        refine List.pairwise_append.2
          ⟨hi.ascending, List.pairwise_singleton _ _, fun a ha b hb => ?_⟩
        rw [List.mem_singleton.1 hb]
        exact hi.below a ha
      · show ∀ r ∈ hashedRows log', r.sequence < s.nextSequence + 1
        rw [hrows]
        intro r hr
        rcases List.mem_append.1 hr with hr | hr
        · exact Nat.lt_succ_of_lt (hi.below r hr)
        · rw [List.mem_singleton.1 hr]
          exact Nat.lt_succ_self _

theorem chainInv_sweep {s : AuditState} {b : PurgeBatch} (hi : ChainInv sha256 s)
    (hC : SparesChain s (.sweep b)) :
    ChainInv sha256 { s with log := purgeBatch s.log b } := by
  obtain ⟨hend, hquiet⟩ := hC
  have hrows : hashedRows (purgeBatch s.log b) =
      (hashedRows s.log).filter fun r => !purges s.log b r := hashedRows_delete hi.ascending
  have hprefix : (hashedRows s.log).filter (fun r => !purges s.log b r) <+: hashedRows s.log := by
    refine filter_prefix (hi.ascending.imp_of_mem fun {r q} hr hq hlt hgone => ?_)
    obtain ⟨hr, hhr⟩ := mem_hashedRows.1 hr
    obtain ⟨hq, hhq⟩ := mem_hashedRows.1 hq
    rw [Bool.not_eq_false'] at hgone ⊢
    exact hend r hr hhr hgone q hq hhq hlt
  refine ⟨?_, ?_, ?_, ?_⟩
  · show Linked sha256 GENESIS_HASH (hashedRows (purgeBatch s.log b))
    rw [hrows]
    exact chained_prefix hprefix hi.linked
  · show Ascending (hashedRows (purgeBatch s.log b))
    rw [hrows]
    exact hi.ascending.sublist List.filter_sublist
  · show ∀ r ∈ hashedRows (purgeBatch s.log b), r.sequence < s.nextSequence
    rw [hrows]
    exact fun r hr => hi.below r (List.mem_of_mem_filter hr)
  · intro a ha h hh
    have hnone : ∀ r ∈ hashedRows s.log, purges s.log b r = false := by
      intro r hr
      obtain ⟨hr, hhr⟩ := mem_hashedRows.1 hr
      by_contra hgone
      have hread := hquiet ⟨r, hr, hhr, by simpa using hgone⟩ a ha
      rw [hread] at hh
      cases hh
    have hkept : hashedRows (purgeBatch s.log b) = hashedRows s.log := by
      rw [hrows]
      exact List.filter_eq_self.2 fun r hr => by rw [hnone r hr]; rfl
    show h = lastHash (purgeBatch s.log b)
    rw [lastHash, hkept]
    exact hi.held a ha h hh

theorem chainInv_step {s s' : AuditState} {e : AuditEvent} (hi : ChainInv sha256 s)
    (hC : SparesChain s e) (hs : auditStep sha256 s e = some s') : ChainInv sha256 s' := by
  cases e with
  | lock event =>
      simp only [auditStep] at hs
      split at hs
      · cases hs
        refine ⟨hi.linked, hi.ascending, hi.below, fun a ha h hh => ?_⟩
        cases ha
        cases hh
      · cases hs
  | readLast =>
      simp only [auditStep] at hs
      split at hs
      · cases hs
        refine ⟨hi.linked, hi.ascending, hi.below, fun a ha h hh => ?_⟩
        cases ha
        cases hh
        rfl
      · cases hs
  | insert =>
      simp only [auditStep] at hs
      split at hs
      · next hholder =>
          cases hs
          exact chainInv_insert hi hholder
      · cases hs
  | fail drawn =>
      simp only [auditStep] at hs
      split at hs
      · cases hs
      · cases hs
        exact ⟨hi.linked, hi.ascending, fun r hr => Nat.lt_add_right _ (hi.below r hr),
          fun _ ha => nomatch ha⟩
  | sweep batch =>
      simp only [auditStep] at hs
      split at hs
      · cases hs
        exact chainInv_sweep hi hC
      · cases hs

/-- Every log reached from the empty one, by handlers and by sweeps that spare
the chain, verifies. -/
theorem honest_log_verifies {es : List AuditEvent} {s : AuditState}
    (hm : Meets (auditStep sha256) SparesChain emptyLog es)
    (h : exec (auditStep sha256) emptyLog es = some s) :
    (verifyChain sha256 s.log).verified = true :=
  verified_iff.2 (runs_inv_meets (fun _ _ _ hi hC hs => chainInv_step hi hC hs)
    chainInv_emptyLog hm h).linked

/-- The steps of a handler whose append succeeds. -/
def appends (event : DeliveredEvent) : List AuditEvent := [.lock event, .readLast, .insert]

/-- A batch of the operational bucket, five months after the sample events. -/
def springSweep : PurgeBatch := ⟨.operational, 90, 1780300800000, 5000, fun _ => false⟩

/-- The sweep takes the only row there is, the event is delivered again, and the
next one is appended at the second attempt. -/
theorem honest_log_verifies_again :
    ∃ s, exec (auditStep sampleSha256) emptyLog
        (appends localeChanged ++ [.sweep springSweep] ++ appends localeChanged ++
          [.lock orgCreated, .readLast, .fail true] ++ appends orgCreated) = some s ∧
      (hashedRows s.log).length = 2 ∧ (verifyChain sampleSha256 s.log).verified = true := by
  have htest : ∀ s e, decide (SparesChain s e) = true → SparesChain s e :=
    fun _ _ => of_decide_eq_true
  have hrun : (exec (auditStep sampleSha256) emptyLog
      (appends localeChanged ++ [.sweep springSweep] ++ appends localeChanged ++
        [.lock orgCreated, .readLast, .fail true] ++ appends orgCreated)).map
      (fun s => (hashedRows s.log).length) = some 2 := by decide
  obtain ⟨s, hs, hlen⟩ := Option.map_eq_some_iff.1 hrun
  exact ⟨s, hs, hlen, honest_log_verifies (meets_of_passes htest (by decide)) hs⟩

/-- Two appends and the sweep that takes the older row: the row that is left
names a hash that is not there any more. -/
theorem swept_log_reported_broken :
    ¬ ∀ es s, exec (auditStep sampleSha256) emptyLog es = some s →
      (verifyChain sampleSha256 s.log).verified = true := by
  intro h
  have hrun : (exec (auditStep sampleSha256) emptyLog
      (appends localeChanged ++ appends orgCreated ++ [.sweep springSweep])).map
      (fun s => (verifyChain sampleSha256 s.log).verified) = some false := by decide +kernel
  obtain ⟨s, hs, hbroken⟩ := Option.map_eq_some_iff.1 hrun
  rw [h _ s hs] at hbroken
  cases hbroken

end CleanStack.Audit
