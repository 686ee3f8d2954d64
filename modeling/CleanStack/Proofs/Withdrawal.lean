import CleanStack.Consents.ConsentService
import CleanStack.Lib.Runs

/-!
# Withdrawn consent

`getActive` looks for the newest grant that has not run out, and the row of a
withdrawal is not a grant: the lookup does not see it. A withdrawal is honoured
only when it came with nothing left to withdraw, or when the same owner granted
again after it. That is what is proved, for every state a sequence of calls can
reach and every lookup.
-/

namespace CleanStack.Consents

open CleanStack.Lib

/-! ## The lookup -/

theorem latestActive_eq_none {t : Table ConsentRecordRow} {owner : ConsentRecordRow → Bool}
    {v : String} {now : Millis} :
    latestActive t owner v now = none ↔
      ∀ r ∈ t.rows, owner r = true → activeRow now v r = false := by
  rw [latestActive, List.head?_eq_none_iff, ← List.length_eq_zero_iff,
    List.length_insertionSort, List.length_eq_zero_iff, List.filter_eq_nil_iff]
  simp only [Bool.and_eq_true, not_and, Bool.not_eq_true]

theorem latestActive_eq_some {t : Table ConsentRecordRow} {owner : ConsentRecordRow → Bool}
    {v : String} {now : Millis} {r : ConsentRecordRow} (h : latestActive t owner v now = some r) :
    (r ∈ t.rows ∧ owner r = true ∧ activeRow now v r = true) ∧
      ∀ g ∈ t.rows, owner g = true → activeRow now v g = true → g.grantedAt ≤ r.grantedAt := by
  have hsorted := List.pairwise_insertionSort
    (fun a b : ConsentRecordRow => b.grantedAt ≤ a.grantedAt)
    (t.rows.filter fun r => owner r && activeRow now v r)
  have hmem : ∀ g, g ∈ (t.rows.filter fun r => owner r && activeRow now v r).insertionSort
      (fun a b => b.grantedAt ≤ a.grantedAt) ↔
      g ∈ t.rows ∧ owner g = true ∧ activeRow now v g = true := by
    intro g
    rw [List.mem_insertionSort, List.mem_filter, Bool.and_eq_true]
  unfold latestActive at h
  cases hl : (t.rows.filter fun r => owner r && activeRow now v r).insertionSort
      (fun a b => b.grantedAt ≤ a.grantedAt) with
  | nil =>
      rw [hl] at h
      cases h
  | cons newest rest =>
      rw [hl] at h hsorted hmem
      have heq : newest = r := Option.some.inj h
      subst heq
      refine ⟨(hmem newest).1 List.mem_cons_self, fun g hg ho ha => ?_⟩
      rcases List.mem_cons.1 ((hmem g).2 ⟨hg, ho, ha⟩) with rfl | hrest
      · exact Nat.le_refl _
      · exact (List.pairwise_cons.1 hsorted).1 g hrest

/-- Whose grants a lookup goes by: the user's when the user has one that has not
run out, and otherwise the subject's. -/
def lookupOwner (t : Table ConsentRecordRow) (now : Millis) (subjectId policyVersion : String)
    (userId : Option String) (g : ConsentRecordRow) : Bool :=
  match userId.filter (· ≠ "") with
  | none => ownedBySubject subjectId g
  | some user =>
      if t.rows.any fun r => ownedByUser user r && activeRow now policyVersion r then
        ownedByUser user g
      else ownedBySubject subjectId g

theorem getActive_eq (t : Table ConsentRecordRow) (now : Millis)
    (subjectId policyVersion : String) (userId : Option String) :
    getActive t now subjectId policyVersion userId =
      latestActive t (lookupOwner t now subjectId policyVersion userId) policyVersion now := by
  unfold getActive lookupOwner
  cases userId.filter (· ≠ "") with
  | none => rfl
  | some user =>
      simp only
      cases hfound : findActiveByUser t now user policyVersion with
      | none =>
          have hnone : (t.rows.any fun r => ownedByUser user r &&
              activeRow now policyVersion r) = false := by
            rw [List.any_eq_false]
            intro r hr
            rw [Bool.and_eq_true, not_and, Bool.not_eq_true]
            exact latestActive_eq_none.1 hfound r hr
          rw [hnone]
          rfl
      | some row =>
          have hsome : (t.rows.any fun r => ownedByUser user r &&
              activeRow now policyVersion r) = true := by
            obtain ⟨⟨hmem, howner, hactive⟩, -⟩ := latestActive_eq_some hfound
            exact List.any_eq_true.2 ⟨row, hmem, by rw [howner, hactive]; rfl⟩
          rw [hsome]
          exact hfound.symm

/-! ## What a lookup should say, and when it does -/

/-- The withdrawals of a version that the subject made or that are the user's. -/
def withdrawalOf (subjectId policyVersion : String) (userId : Option String)
    (w : ConsentRecordRow) : Bool :=
  w.withdrawnAt.isSome && decide (w.policyVersion = policyVersion) &&
    (decide (w.subjectId = subjectId) || (userId.isSome && decide (w.userId = userId)))

/-- What is found is an unexpired grant of the version, and nothing the subject
or the user withdrew after it. -/
def Honoured (t : Table ConsentRecordRow) (now : Millis) (subjectId policyVersion : String)
    (userId : Option String) : Prop :=
  ∀ r, getActive t now subjectId policyVersion userId = some r →
    r.withdrawnAt = none ∧ r.policyVersion = policyVersion ∧ now < r.expiresAt ∧
      ∀ w ∈ t.rows, withdrawalOf subjectId policyVersion userId w = true →
        ¬ r.grantedAt < w.grantedAt

/-- Every withdrawal of the subject or the user either finds nobody's grant left
that the lookup would go by, or was followed by a new one. -/
def Regranted (t : Table ConsentRecordRow) (now : Millis) (subjectId policyVersion : String)
    (userId : Option String) : Prop :=
  ∀ w ∈ t.rows, withdrawalOf subjectId policyVersion userId w = true →
    (∃ g ∈ t.rows, lookupOwner t now subjectId policyVersion userId g = true ∧
      activeRow now policyVersion g = true) →
    ∃ g ∈ t.rows, lookupOwner t now subjectId policyVersion userId g = true ∧
      activeRow now policyVersion g = true ∧ w.grantedAt < g.grantedAt

theorem activeRow_iff {now : Millis} {v : String} {r : ConsentRecordRow} :
    activeRow now v r = true ↔
      r.withdrawnAt = none ∧ r.policyVersion = v ∧ now < r.expiresAt := by
  unfold activeRow
  rw [Bool.and_eq_true, Bool.and_eq_true, decide_eq_true_eq, decide_eq_true_eq,
    Option.isNone_iff_eq_none]
  exact ⟨fun ⟨⟨hv, hw⟩, he⟩ => ⟨hw, hv, he⟩, fun ⟨hw, hv, he⟩ => ⟨⟨hv, hw⟩, he⟩⟩

theorem withdrawnAt_of_withdrawalOf {s v : String} {u : Option String} {w : ConsentRecordRow}
    (h : withdrawalOf s v u w = true) : w.withdrawnAt ≠ none := by
  unfold withdrawalOf at h
  rw [Bool.and_eq_true, Bool.and_eq_true] at h
  intro hnone
  rw [hnone] at h
  exact absurd h.1.1 (by decide)

theorem honoured_iff {t : Table ConsentRecordRow}
    (hdistinct : (t.rows.map ConsentRecordRow.grantedAt).Nodup) {now : Millis} {s v : String}
    {u : Option String} : Honoured t now s v u ↔ Regranted t now s v u := by
  constructor
  · intro hh w hw hof ⟨g, hg, howner, hactive⟩
    cases hfound : latestActive t (lookupOwner t now s v u) v now with
    | none =>
        rw [latestActive_eq_none.1 hfound g hg howner] at hactive
        cases hactive
    | some r =>
        obtain ⟨⟨hr, hro, hra⟩, -⟩ := latestActive_eq_some hfound
        obtain ⟨hgrant, -, -, hlater⟩ := hh r ((getActive_eq t now s v u).trans hfound)
        have hle : w.grantedAt ≤ r.grantedAt := Nat.le_of_not_lt (hlater w hw hof)
        have hne : w.grantedAt ≠ r.grantedAt := by
          intro heq
          rw [← List.inj_on_of_nodup_map hdistinct hw hr heq] at hgrant
          exact withdrawnAt_of_withdrawalOf hof hgrant
        exact ⟨r, hr, hro, hra, Nat.lt_of_le_of_ne hle hne⟩
  · intro hre r hfound
    rw [getActive_eq] at hfound
    obtain ⟨⟨hr, hro, hra⟩, hnewest⟩ := latestActive_eq_some hfound
    obtain ⟨hgrant, hversion, hunexpired⟩ := activeRow_iff.1 hra
    refine ⟨hgrant, hversion, hunexpired, fun w hw hof hlater => ?_⟩
    obtain ⟨g, hg, hgo, hga, hafter⟩ := hre w hw hof ⟨r, hr, hro, hra⟩
    exact absurd (Nat.lt_of_lt_of_le hafter (hnewest g hg hgo hga)) (Nat.lt_asymm hlater)

/-! ## Runs -/

def instants (es : List ConsentCall) : List Millis := es.filterMap ConsentCall.instant

/-- Every row carries the instant of a call of its own. -/
structure Dated (es : List ConsentCall) (db : ConsentDb) : Prop where
  distinct : (db.records.rows.map ConsentRecordRow.grantedAt).Nodup
  known : ∀ r ∈ db.records.rows, r.grantedAt ∈ instants es

theorem append_cases (db : ConsentDb) (fails : Bool) (row : ConsentRecordRow)
    (news : ConsentNews) :
    append db fails row news = db ∨
      (append db fails row news).records.rows = row :: db.records.rows := by
  unfold append
  split
  · exact .inl rfl
  · split
    · exact .inl rfl
    · next records hins =>
        unfold Table.insert at hins
        split at hins
        · cases hins
        · cases hins
          exact .inr rfl

theorem dated_append {es : List ConsentCall} {db : ConsentDb} {e : ConsentCall} {fails : Bool}
    {row : ConsentRecordRow} {news : ConsentNews} (hd : Dated es db)
    (he : e.instant = some row.grantedAt) (hnodup : (instants (es ++ [e])).Nodup) :
    Dated (es ++ [e]) (append db fails row news) := by
  have hsplit : instants (es ++ [e]) = instants es ++ [row.grantedAt] := by
    rw [instants, List.filterMap_append, List.filterMap_cons, he]
    rfl
  rw [hsplit] at hnodup
  have hfresh : row.grantedAt ∉ instants es := fun hin =>
    List.disjoint_of_nodup_append hnodup hin List.mem_cons_self
  have hold : ∀ r ∈ db.records.rows, r.grantedAt ∈ instants (es ++ [e]) := by
    intro r hr
    rw [hsplit]
    exact List.mem_append_left _ (hd.known r hr)
  rcases append_cases db fails row news with hsame | hrows
  · rw [hsame]
    exact ⟨hd.distinct, hold⟩
  · refine ⟨?_, ?_⟩
    · rw [hrows, List.map_cons, List.nodup_cons]
      refine ⟨fun hin => ?_, hd.distinct⟩
      obtain ⟨r, hr, heq⟩ := List.mem_map.1 hin
      exact hfresh (heq ▸ hd.known r hr)
    · rw [hrows]
      intro r hr
      rcases List.mem_cons.1 hr with rfl | hr
      · rw [hsplit]
        exact List.mem_append_right _ List.mem_cons_self
      · exact hold r hr

theorem grantedAt_linked (t : Table ConsentRecordRow) (subjectId userId : String) :
    (linkSubjectToUser t subjectId userId).1.rows.map ConsentRecordRow.grantedAt =
      t.rows.map ConsentRecordRow.grantedAt := by
  show (t.rows.map _).map ConsentRecordRow.grantedAt = _
  rw [List.map_map]
  refine List.map_congr_left fun r _ => ?_
  show (if orphanOf subjectId r then linkedTo userId r else r).grantedAt = r.grantedAt
  split <;> rfl

theorem records_reconcile (db : ConsentDb) (fails : Bool) (subjectId userId : String) :
    (reconcile db fails subjectId userId).records.rows.map ConsentRecordRow.grantedAt =
      db.records.rows.map ConsentRecordRow.grantedAt := by
  unfold reconcile
  split
  · rfl
  · simp only
    split
    · exact grantedAt_linked db.records subjectId userId
    · exact grantedAt_linked db.records subjectId userId

theorem dated_step {es : List ConsentCall} {db db' : ConsentDb} {e : ConsentCall}
    (hd : Dated es db) (hnodup : (instants (es ++ [e])).Nodup)
    (hs : callStep db e = some db') : Dated (es ++ [e]) db' := by
  cases e with
  | record c input =>
      cases hs
      exact dated_append hd rfl hnodup
  | withdraw c input =>
      cases hs
      exact dated_append hd rfl hnodup
  | reconcile fails subjectId userId =>
      cases hs
      have hrows := records_reconcile db fails subjectId userId
      refine ⟨hrows ▸ hd.distinct, fun r hr => ?_⟩
      have hin : r.grantedAt ∈ db.records.rows.map ConsentRecordRow.grantedAt :=
        hrows ▸ List.mem_map_of_mem hr
      obtain ⟨q, hq, heq⟩ := List.mem_map.1 hin
      rw [instants, List.filterMap_append, ← heq]
      exact List.mem_append_left _ (hd.known q hq)

theorem dated_run {es : List ConsentCall} {db : ConsentDb} (hnodup : (instants es).Nodup)
    (h : exec callStep emptyDb es = some db) : Dated es db := by
  have hstart : (instants []).Nodup → Dated [] emptyDb :=
    fun _ => ⟨List.nodup_nil, fun _ hr => nomatch hr⟩
  have hstep : ∀ fs m e t, exec callStep emptyDb fs = some m →
      ((instants fs).Nodup → Dated fs m) → callStep m e = some t →
      (instants (fs ++ [e])).Nodup → Dated (fs ++ [e]) t := by
    intro fs m e t _ hi hs hn
    have hprefix : (instants fs).Nodup := by
      rw [instants, List.filterMap_append] at hn
      exact hn.sublist (List.sublist_append_left _ _)
    exact dated_step (hi hprefix) hn hs
  exact runs_trace_inv hstart hstep h hnodup

/-- In every state a sequence of calls at distinct instants can reach, and for
every lookup in it: the withdrawals are honoured exactly when each came with
nothing left to withdraw or was followed by a new grant. -/
theorem withdrawal_honoured_iff {es : List ConsentCall} {db : ConsentDb}
    (hnodup : (instants es).Nodup) (h : exec callStep emptyDb es = some db) (now : Millis)
    (subjectId policyVersion : String) (userId : Option String) :
    Honoured db.records now subjectId policyVersion userId ↔
      Regranted db.records now subjectId policyVersion userId :=
  honoured_iff (dated_run hnodup h).distinct

/-! ## A browser that accepts, signs in and withdraws -/

/-- A call that succeeds, at `now` milliseconds. -/
def callAt (now : Millis) (uuid : String) : CallContext :=
  ⟨now, uuid, COOKIE_CONSENT_VERSION, false⟩

def acceptAndWithdraw : List ConsentCall :=
  [.record (callAt 1000 "c1") ⟨"browser", none, [.analytics], none, none⟩,
    .reconcile false "browser" "u1",
    .withdraw (callAt 2000 "c2") ⟨"browser", some "u1"⟩]

/-- The browser accepts once more. -/
def acceptAgain : List ConsentCall :=
  acceptAndWithdraw ++
    [.record (callAt 3000 "c3") ⟨"browser", some "u1", [.functional], none, none⟩]

theorem withdrawal_honoured_after_regrant :
    ∃ db, exec callStep emptyDb acceptAgain = some db ∧
      (Honoured db.records 4000 "browser" COOKIE_CONSENT_VERSION (some "u1") ↔
        Regranted db.records 4000 "browser" COOKIE_CONSENT_VERSION (some "u1")) := by
  have hnodup : (instants acceptAgain).Nodup := by decide
  exact ⟨_, rfl, withdrawal_honoured_iff hnodup rfl 4000 "browser" COOKIE_CONSENT_VERSION
    (some "u1")⟩

/-- After the withdrawal the lookup still finds the grant. -/
theorem withdrawal_ignored :
    ¬ ∀ es db, (instants es).Nodup → exec callStep emptyDb es = some db →
      ∀ now subjectId policyVersion userId,
        Honoured db.records now subjectId policyVersion userId := by
  intro h
  have hrun : (exec callStep emptyDb acceptAndWithdraw).map (fun db =>
      ((getActive db.records 4000 "browser" COOKIE_CONSENT_VERSION (some "u1")).map
        ConsentRecordRow.grantedAt, db.records.rows.any fun w =>
          withdrawalOf "browser" COOKIE_CONSENT_VERSION (some "u1") w &&
            decide (1000 < w.grantedAt))) = some (some 1000, true) := by decide
  obtain ⟨db, hdb, hfound⟩ := Option.map_eq_some_iff.1 hrun
  obtain ⟨hactive, hany⟩ := Prod.mk.inj hfound
  obtain ⟨r, hr, hgranted⟩ := Option.map_eq_some_iff.1 hactive
  obtain ⟨w, hw, hlater⟩ := List.any_eq_true.1 hany
  rw [Bool.and_eq_true, decide_eq_true_eq] at hlater
  obtain ⟨-, -, -, hnone⟩ := h acceptAndWithdraw db (by decide) hdb 4000 "browser"
    COOKIE_CONSENT_VERSION (some "u1") r hr
  exact hnone w hw hlater.1 (hgranted ▸ hlater.2)

end CleanStack.Consents
