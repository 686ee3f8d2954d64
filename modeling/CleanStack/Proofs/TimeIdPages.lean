import CleanStack.Admin.ApprovalList
import CleanStack.Audit.Listing

/-!
# Time and id cursors visit everything

A cursor holds the time of a row to the column's precision and the row's id, and
both come back from its text. No two rows share both, so the rows after a
cursor are the rows after its row, and following the cursors of the audit list
or of the approvals list visits every row once.
-/

namespace CleanStack.Http

open CleanStack.Kit CleanStack.Drizzle CleanStack.Lib CleanStack.Audit CleanStack.Admin

variable {collation : Collation} {other : String → Option Int}

/-- Keys of a time and an id are distinct where the ids are. -/
theorem nodup_timeIdKeys {ρ : Type} {rows : List ρ} (time : ρ → Int) (id : ρ → String)
    (h : (rows.map id).Nodup) :
    (rows.map fun r => (toLex (time r, collation.sortKey (id r)) : Int ×ₗ List Nat)).Nodup := by
  refine List.Nodup.of_map (fun k : Int ×ₗ List Nat => (ofLex k).2) ?_
  have hkeys := h.map collation.injective
  rw [List.map_map] at hkeys ⊢
  exact hkeys

/-! ## The audit list -/

theorem schema_auditCursorOf {r : AuditListRow} (h : FourDigitYear r.occurredAt.date) :
    timeIdCursorSchema (auditCursorOf r) = .ok ⟨columnText r.occurredAt, r.id⟩ := by
  refine timeIdCursorSchema_encode (not_mem_columnText h) ?_ r.id_ne
  rw [INSTANT, readInstant_columnText h]
  rfl

/-- The rows that the condition of a cursor leaves. -/
def auditAdmits (collation : Collation) (other : String → Option Int) (cursor : Option String)
    (r : AuditListRow) : Bool :=
  match cursor.bind fun raw => (timeIdCursorSchema raw).toOption with
  | none => true
  | some cursor =>
      match asTimestamp other cursor.atText with
      | none => false
      | some instant => afterTimeIdCursor collation instant cursor.id r.occurredAt.micros r.id

theorem auditAdmits_cursorOf {x : AuditListRow} (h : FourDigitYear x.occurredAt.date)
    (r : AuditListRow) :
    auditAdmits collation other (some (auditCursorOf x)) r =
      decide (auditKey collation r < auditKey collation x) := by
  unfold auditAdmits
  rw [Option.bind_some, schema_auditCursorOf h]
  show (match asTimestamp other (columnText x.occurredAt) with
    | none => false
    | some instant => afterTimeIdCursor collation instant x.id r.occurredAt.micros r.id) = _
  rw [asTimestamp_columnText other h]
  exact afterTimeIdCursor_eq collation _ _ _ _

section Audit

variable (order : Descending (auditKey collation)) (other) (table : Table AuditListRow)
  (filters : AuditFilters) (hyears : ∀ r ∈ table.rows, FourDigitYear r.occurredAt.date)

def auditPaged : Paged AuditListRow String (Int ×ₗ List Nat) where
  rows := table.rows.filter (selected filters)
  key := auditKey collation
  order := order
  admits := auditAdmits collation other
  cursorOf := auditCursorOf
  bound k := k
  bound_le _ := le_rfl
  admits_none _ _ := rfl
  admits_cursorOf x hx r _ := auditAdmits_cursorOf (hyears x (List.mem_filter.1 hx).1) r

def auditLimit (filters : AuditFilters) : Nat :=
  min (filters.limit.getD DEFAULT_LIMIT) MAX_LIMIT

theorem auditLimit_pos (hlimit : ∀ n, filters.limit = some n → 0 < n) :
    0 < auditLimit filters := by
  unfold auditLimit DEFAULT_LIMIT MAX_LIMIT
  cases h : filters.limit with
  | none => simp
  | some n =>
      have := hlimit n h
      rw [Option.getD_some]
      omega

/-- A request with a cursor the list issued answers that cursor's page. -/
theorem list_eq_page {cursor : Option String}
    (hissued : (auditPaged other order table filters hyears).Issued cursor) :
    Audit.list collation order other table { filters with cursor := cursor } =
      .ok ((auditPaged other order table filters hyears).page
        (Paged.lookahead (auditLimit filters)) (auditLimit filters) cursor) := by
  rw [Paged.page_lookahead_eq rfl]
  cases cursor with
  | none =>
      rw [Paged.after_none]
      rfl
  | some c =>
      obtain ⟨x, hx, rfl⟩ : ∃ x ∈ table.rows.filter (selected filters), auditCursorOf x = c :=
        hissued c rfl
      have hyear := hyears x (List.mem_filter.1 hx).1
      have hwhere : table.rows.filter (fun r => selected filters r &&
          afterTimeIdCursor collation x.occurredAt.micros x.id r.occurredAt.micros r.id) =
          (table.rows.filter (selected filters)).filter
            (auditAdmits collation other (some (auditCursorOf x))) := by
        rw [List.filter_filter]
        apply List.filter_congr
        intro r _
        rw [auditAdmits_cursorOf hyear, Bool.and_comm, afterTimeIdCursor_eq]
        rfl
      simp only [Audit.list, Option.bind_some, schema_auditCursorOf hyear]
      show (match asTimestamp other (columnText x.occurredAt) with
        | none => _
        | some instant => _) = _
      rw [asTimestamp_columnText other hyear]
      show Except.ok (auditPage _ ((order.arrange (table.rows.filter fun r =>
        selected filters r &&
          afterTimeIdCursor collation x.occurredAt.micros x.id r.occurredAt.micros r.id)).take
            _)) = _
      rw [hwhere]
      rfl

include hyears

theorem audit_visits_everything (hlimit : ∀ n, filters.limit = some n → 0 < n) :
    VisitsEverything
      (fun cursor =>
        (Audit.list collation order other table { filters with cursor := cursor }).toOption)
      (table.rows.filter (selected filters)) (auditKey collation) := by
  refine Paged.visitsEverything_of_nodup (p := auditPaged other order table filters hyears)
    (Paged.continues_lookahead (auditLimit_pos filters hlimit)) ?_ (fun _ => rfl)
    (nodup_timeIdKeys _ _ (table.nodup.sublist (List.filter_sublist.map _)))
  intro cursor hissued
  rw [list_eq_page other order table filters hyears hissued]
  rfl

end Audit

/-! ## The approvals list -/

theorem schema_approvalCursorOf {r : ApprovalListRow} (h : FourDigitYear r.createdAt) :
    timeIdCursorSchema (approvalCursorOf r) = .ok ⟨toISOString r.createdAt, r.id⟩ := by
  refine timeIdCursorSchema_encode (not_mem_toISOString h) ?_ r.id_ne
  rw [INSTANT, readInstant_toISOString h]
  rfl

def approvalAdmits (collation : Collation) (other : String → Option Int) (cursor : Option String)
    (r : ApprovalListRow) : Bool :=
  match cursor with
  | none => true
  | some raw =>
      match timeIdCursorSchema raw with
      | .error _ => false
      | .ok cursor =>
          match asTimestamptz other cursor.atText with
          | none => false
          | some instant => afterTimeIdCursor collation instant cursor.id (dateMicros r.createdAt) r.id

theorem approvalAdmits_cursorOf {x : ApprovalListRow} (h : FourDigitYear x.createdAt)
    (r : ApprovalListRow) :
    approvalAdmits collation other (some (approvalCursorOf x)) r =
      decide (approvalKey collation r < approvalKey collation x) := by
  simp only [approvalAdmits, schema_approvalCursorOf h, asTimestamptz_toISOString other h]
  exact afterTimeIdCursor_eq collation _ _ _ _

section Approvals

variable (order : Descending (approvalKey collation)) (other) (table : Table ApprovalListRow)
  (status : Option ApprovalStatus) (limit : Nat)
  (hyears : ∀ r ∈ table.rows, FourDigitYear r.createdAt)

def approvalPaged : Paged ApprovalListRow String (Int ×ₗ List Nat) where
  rows := table.rows.filter (withStatus status)
  key := approvalKey collation
  order := order
  admits := approvalAdmits collation other
  cursorOf := approvalCursorOf
  bound k := k
  bound_le _ := le_rfl
  admits_none _ _ := rfl
  admits_cursorOf x hx r _ := approvalAdmits_cursorOf (hyears x (List.mem_filter.1 hx).1) r

theorem approvalPage_of_stored {input : ListApprovalsInput} {items : List ApprovalListRow}
    (h : storedApprovals collation order other table input = .ok items) :
    approvalPage collation order other table input =
      .ok ⟨items,
        if items.length = input.limit then items.getLast?.map approvalCursorOf else none⟩ := by
  rw [approvalPage, h]
  rfl

theorem listApprovals_of_parsed {raw : Option String} {cursor : Option TimeIdCursor}
    (h : parsedCursor raw = .ok cursor) :
    listApprovals collation order other table ⟨status, raw, limit⟩ =
      approvalPage collation order other table ⟨status, cursor, limit⟩ := by
  rw [listApprovals, h]
  rfl

theorem after_approvalPaged (cursor : Option String) :
    (approvalPaged other order table status hyears).after cursor =
      order.arrange ((table.rows.filter (withStatus status)).filter
        (approvalAdmits collation other cursor)) :=
  rfl

theorem listApprovals_eq_page {cursor : Option String}
    (hissued : (approvalPaged other order table status hyears).Issued cursor) :
    listApprovals collation order other table ⟨status, cursor, limit⟩ =
      .ok ((approvalPaged other order table status hyears).page (Paged.fullPage limit) limit
        cursor) := by
  rw [Paged.page_fullPage_eq rfl]
  cases cursor with
  | none =>
      rw [Paged.after_none]
      rfl
  | some c =>
      obtain ⟨x, hx, rfl⟩ : ∃ x ∈ table.rows.filter (withStatus status), approvalCursorOf x = c :=
        hissued c rfl
      have hyear := hyears x (List.mem_filter.1 hx).1
      have hwhere : table.rows.filter (fun r => withStatus status r &&
          afterTimeIdCursor collation (dateMicros x.createdAt) x.id (dateMicros r.createdAt) r.id) =
          (table.rows.filter (withStatus status)).filter
            (approvalAdmits collation other (some (approvalCursorOf x))) := by
        rw [List.filter_filter]
        apply List.filter_congr
        intro r _
        rw [approvalAdmits_cursorOf hyear, Bool.and_comm, afterTimeIdCursor_eq]
        rfl
      have hstored : storedApprovals collation order other table
          ⟨status, some ⟨toISOString x.createdAt, x.id⟩, limit⟩ =
          .ok ((order.arrange ((table.rows.filter (withStatus status)).filter
            (approvalAdmits collation other (some (approvalCursorOf x))))).take limit) := by
        simp only [storedApprovals, asTimestamptz_toISOString other hyear, hwhere]
      have hparsed : parsedCursor (some (approvalCursorOf x)) =
          .ok (some ⟨toISOString x.createdAt, x.id⟩) := by
        simp only [parsedCursor, schema_approvalCursorOf hyear]
      rw [after_approvalPaged, listApprovals_of_parsed other order table status limit hparsed,
        approvalPage_of_stored other order table hstored]
      rfl

include hyears

theorem approvals_visit_everything (hlimit : 0 < limit) :
    VisitsEverything
      (fun cursor =>
        (listApprovals collation order other table ⟨status, cursor, limit⟩).toOption)
      (table.rows.filter (withStatus status)) (approvalKey collation) := by
  refine Paged.visitsEverything_of_nodup (p := approvalPaged other order table status hyears)
    (Paged.continues_fullPage hlimit) ?_ (fun _ => rfl)
    (nodup_timeIdKeys _ _ (table.nodup.sublist (List.filter_sublist.map _)))
  intro cursor hissued
  rw [listApprovals_eq_page other order table status limit hyears hissued]
  rfl

end Approvals

/-! ## Both lists -/

/-- Whatever the collation, and whatever the database makes of the texts that
are no dates, following the cursors of either list visits the rows that match
once each, from the latest time and greatest id down. -/
theorem time_id_lists_visit_everything (collation : Collation)
    (otherTimestamp otherTimestamptz : String → Option Int)
    (auditOrder : Descending (auditKey collation)) (audits : Table AuditListRow)
    (filters : AuditFilters) (approvalOrder : Descending (approvalKey collation))
    (approvals : Table ApprovalListRow) (status : Option ApprovalStatus) (limit : Nat)
    (hauditYears : ∀ r ∈ audits.rows, FourDigitYear r.occurredAt.date)
    (hauditLimit : ∀ n, filters.limit = some n → 0 < n)
    (happrovalYears : ∀ r ∈ approvals.rows, FourDigitYear r.createdAt) (hlimit : 0 < limit) :
    VisitsEverything
        (fun cursor =>
          (Audit.list collation auditOrder otherTimestamp audits
            { filters with cursor := cursor }).toOption)
        (audits.rows.filter (selected filters)) (auditKey collation) ∧
      VisitsEverything
        (fun cursor =>
          (listApprovals collation approvalOrder otherTimestamptz approvals
            ⟨status, cursor, limit⟩).toOption)
        (approvals.rows.filter (withStatus status)) (approvalKey collation) :=
  ⟨audit_visits_everything otherTimestamp auditOrder audits filters hauditYears hauditLimit,
    approvals_visit_everything otherTimestamptz approvalOrder approvals status limit
      happrovalYears hlimit⟩

def shownAudit (id : String) (id_ne : id ≠ "") (sequence micro : Nat)
    (micro_lt : micro < 1000) : AuditListRow where
  id := id
  id_ne := id_ne
  sequence := sequence
  actorId := some "ada"
  actorType := "user"
  organizationId := none
  action := "auth.login"
  targetType := "user"
  targetId := "ada"
  metadata := ⟨.null, rfl⟩
  requestId := none
  retention := "operational"
  prevHash := none
  hash := none
  occurredAt := ⟨⟨1793378460816, by decide⟩, micro, micro_lt⟩

/-- Three rows of one millisecond, two of them of one microsecond and with the
separator in an id. -/
def shownAudits : Table AuditListRow where
  rows := [shownAudit "a~b" (by decide) 1 759 (by decide),
    shownAudit "b~a" (by decide) 2 759 (by decide), shownAudit "c" (by decide) 3 758 (by decide)]
  nodup := by decide

def noFilters (limit : Nat) : AuditFilters :=
  ⟨none, none, none, none, none, none, none, some limit, none⟩

def shownApproval (id : String) (id_ne : id ≠ "") : ApprovalListRow where
  id := id
  id_ne := id_ne
  action := .staffRevoke
  subjectId := "bob"
  params := .obj []
  requestedBy := "ada"
  status := .pending
  decidedBy := none
  decisionNote := none
  failureReason := none
  expiresAt := ⟨1793464860816, by decide⟩
  decidedAt := none
  createdAt := ⟨1793378460816, by decide⟩
  version := 0

def shownApprovals : Table ApprovalListRow where
  rows := [shownApproval "a~b" (by decide), shownApproval "b" (by decide)]
  nodup := by decide

theorem time_id_lists_visit_everything_one_by_one :
    VisitsEverything
        (fun cursor =>
          (Audit.list .codePoints (.stable _) (fun _ => none) shownAudits
            { noFilters 1 with cursor := cursor }).toOption)
        (shownAudits.rows.filter (selected (noFilters 1))) (auditKey .codePoints) ∧
      VisitsEverything
        (fun cursor =>
          (listApprovals .codePoints (.stable _) (fun _ => none) shownApprovals
            ⟨some .pending, cursor, 1⟩).toOption)
        (shownApprovals.rows.filter (withStatus (some .pending)))
        (approvalKey .codePoints) := by
  refine time_id_lists_visit_everything .codePoints (fun _ => none) (fun _ => none) (.stable _)
    shownAudits (noFilters 1) (.stable _) shownApprovals (some .pending) 1 ?_ ?_ ?_ (by decide)
  · decide
  · intro n hn
    obtain rfl := Option.some.inj hn
    decide
  · decide

end CleanStack.Http
