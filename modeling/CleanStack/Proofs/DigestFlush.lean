import CleanStack.Lib.Runs
import CleanStack.Proofs.DigestGroups
import CleanStack.Proofs.DigestPages

/-!
# Every due notification in one digest or dropped

The digests that committed and the rows marked sent are two sides of one account
(`DigestInv`): the ids in the digests are distinct, a row is marked sent when its
id is among them, and no mail has a digest's key unless that digest committed. A
flush that commits adds rows that were due, so not marked, so in no digest yet; the
keys of its digests are therefore new, and no insert is left out for a key that is
taken. What it marks and what it queues stay the same set.

The digest function is only known to be injective and never empty.
-/

namespace CleanStack.Notifications

open CleanStack.Lib CleanStack.Drizzle CleanStack.Kit CleanStack.Email CleanStack.Events
open CleanStack.Admin (AppError)

def digestIds (db : DigestDb) : List String := db.digests.flatMap DigestGroup.notificationIds

theorem inDigests_iff {db : DigestDb} {id : String} :
    inDigests db.digests id = true ↔ id ∈ digestIds db := by
  simp [inDigests, digestIds]

structure DigestInv (sha256 : String → List UInt8) (db : DigestDb) : Prop where
  once : (digestIds db).Nodup
  sent : ∀ n ∈ db.notifications.rows, n.emailSentAt.isSome = true ↔ n.id ∈ digestIds db
  plain : ∀ d ∈ db.digests,
    d.notificationIds ≠ [] ∧ ∀ id ∈ d.notificationIds, '|' ∉ id.toList
  keys : ∀ m ∈ db.emails.rows, ∀ key, m.idempotencyKey = some key → isHexText key = true →
    ∃ d ∈ db.digests, key = digestIdempotencyKey sha256 d.notificationIds

theorem digestInv_empty (sha256 : String → List UInt8) : DigestInv sha256 emptyDigestDb where
  once := List.nodup_nil
  sent := fun _ hn => absurd hn List.not_mem_nil
  plain := fun _ hd => absurd hd List.not_mem_nil
  keys := fun _ hm => absurd hm List.not_mem_nil

/-! ## The rows of a flush -/

section Rows

variable {f : Flush} {before : Table NotificationRow} {s : PagesRead}

theorem mem_rows_ids (hi : PagesInv f before s) {id : String} :
    id ∈ s.rows.map PendingRow.id ↔ sentIn s.read.flatten id = true := by
  rw [hi.rows, List.map_map, List.mem_map, sentIn, List.any_eq_true]
  constructor
  · intro h
    obtain ⟨c, hc, hid⟩ := h
    obtain ⟨hc, hwanted⟩ := List.mem_filter.1 hc
    exact ⟨c, hc, by rw [hwanted, Bool.and_true]; exact decide_eq_true hid⟩
  · intro h
    obtain ⟨c, hc, h⟩ := h
    obtain ⟨hid, hwanted⟩ := Bool.and_eq_true_iff.1 h
    exact ⟨c, List.mem_filter.2 ⟨hc, hwanted⟩, of_decide_eq_true hid⟩

theorem nodup_rows (hi : PagesInv f before s) : (s.rows.map PendingRow.id).Nodup := by
  rw [hi.rows, List.map_map]
  exact hi.once.sublist (List.filter_sublist.map _)

/-- A row that will be sent is one that was due. -/
theorem source_of_rows (hi : PagesInv f before s) {id : String}
    (h : id ∈ s.rows.map PendingRow.id) :
    ∃ n ∈ before.rows, n.id = id ∧ isDueAt f.now n = true := by
  have hread := settledIn_iff.1 (by rw [(mem_rows_ids hi).1 h, Bool.or_true] :
    (droppedIn s.read.flatten id || sentIn s.read.flatten id) = true)
  obtain ⟨d, hd, hid⟩ := List.mem_map.1 hread
  obtain ⟨candidates, hc, hd⟩ := List.mem_flatten.1 hd
  obtain ⟨index, hindex, hget⟩ := List.getElem_of_mem hc
  have hget : s.read[index]? = some candidates := by
    rw [List.getElem?_eq_getElem hindex, hget]
  obtain ⟨n, hn, hdue, -, hjoin⟩ := hi.source index candidates hget d hd
  exact ⟨n, hn, (joinedRow_id hjoin).symm.trans hid, hdue⟩

theorem unsent_of_due {now : Time} {n : NotificationRow} (h : isDueAt now n = true) :
    n.emailSentAt = none :=
  Option.isNone_iff_eq_none.1 (Bool.and_eq_true_iff.1 h).2

theorem mem_digest_iff {rows : List PendingRow} {id : String} :
    id ∈ (buildDigests rows).flatMap DigestGroup.notificationIds ↔
      id ∈ rows.map PendingRow.id :=
  (ids_buildDigests rows).mem_iff

end Rows

/-! ## Keys nobody has -/

section Keys

variable {sha256 : String → List UInt8}

theorem nodup_keys (hsha : Function.Injective sha256) {digests : List DigestGroup}
    (hplain : ∀ d ∈ digests,
      d.notificationIds ≠ [] ∧ ∀ id ∈ d.notificationIds, '|' ∉ id.toList)
    (hnodup : (digests.flatMap DigestGroup.notificationIds).Nodup) :
    (digests.map fun d => digestIdempotencyKey sha256 d.notificationIds).Nodup := by
  rw [List.nodup_flatMap] at hnodup
  rw [List.Nodup, List.pairwise_map]
  refine hnodup.2.imp_of_mem fun {d d'} hd hd' hdisjoint hkey => ?_
  obtain ⟨hne, hids⟩ := hplain d hd
  obtain ⟨hne', hids'⟩ := hplain d' hd'
  have hperm := perm_of_key hsha hids hids' hne hne' hkey
  obtain ⟨id, rest, hid⟩ := List.exists_cons_of_ne_nil hne
  have hmem : id ∈ d.notificationIds := hid ▸ List.mem_cons_self
  exact hdisjoint hmem (hperm.mem_iff.1 hmem)

/-- The key of a digest with an id that is in none is free. -/
theorem keyTaken_eq_false (hsha : Function.Injective sha256) {db : DigestDb}
    (hi : DigestInv sha256 db) {ids : List String} (hne : ids ≠ [])
    (hplain : ∀ id ∈ ids, '|' ∉ id.toList) (hnew : ∀ id ∈ ids, id ∉ digestIds db) :
    keyTaken db.emails (some (digestIdempotencyKey sha256 ids)) = false := by
  rw [keyTaken, Option.isSome_some, Bool.true_and, List.any_eq_false]
  intro m hm hkey
  obtain ⟨d, hd, hsame⟩ := hi.keys m hm _ (of_decide_eq_true hkey) (isHexText_key ids)
  obtain ⟨hne', hplain'⟩ := hi.plain d hd
  have hperm := perm_of_key hsha hplain hplain' hne hne' hsame
  obtain ⟨id, rest, hid⟩ := List.exists_cons_of_ne_nil hne
  have hmem : id ∈ ids := hid ▸ List.mem_cons_self
  exact hnew id hmem (List.mem_flatMap.2 ⟨d, hd, hperm.mem_iff.1 hmem⟩)

end Keys

theorem writtenDigests_all {β : Type} (digests : List DigestGroup) (l : List β)
    (h : l.length = digests.length) : writtenDigests digests (l.map fun _ => true) = digests := by
  induction digests generalizing l with
  | nil => rfl
  | cons d digests ih =>
      cases l with
      | nil => cases h
      | cons b l =>
          have hrest := ih l (by simpa using h)
          simp only [writtenDigests] at hrest ⊢
          rw [List.map_cons, List.zip_cons_cons, List.filter_cons, if_pos rfl, List.map_cons,
            hrest]

/-! ## The end of a flush -/

section Send

variable {sha256 : String → List UInt8} {subjectOf : String → JsValue → Email.Locale → String}
  (hsha : Function.Injective sha256) (hfilled : ∀ text, sha256 text ≠ [])
  {f : Flush} {db db' : DigestDb} {s : PagesRead} {outcome : FlushOutcome}

/-- What a flush that reached its end would commit. -/
structure Sent (sha256 : String → List UInt8) (s : PagesRead) (db db' : DigestDb)
    (outcome : FlushOutcome) : Prop where
  notifications : db'.notifications = s.notifications
  digests : db'.digests = db.digests ++ buildDigests s.rows
  mailed : ∀ d ∈ buildDigests s.rows, ∃ m ∈ db'.emails.rows,
    m.idempotencyKey = some (digestIdempotencyKey sha256 d.notificationIds) ∧
      m.toAddress = d.email
  mails : ∀ m ∈ db'.emails.rows, m ∈ db.emails.rows ∨ ∃ d ∈ buildDigests s.rows,
    m.idempotencyKey = some (digestIdempotencyKey sha256 d.notificationIds)
  outcome : outcome = ⟨false, (buildDigests s.rows).length, s.rows.length⟩

theorem digest_of_rows (hi : DigestInv sha256 db) (hp : PagesInv f db.notifications s)
    {d : DigestGroup} (hd : d ∈ buildDigests s.rows) :
    d.notificationIds ≠ [] ∧ ∀ id ∈ d.notificationIds, '|' ∉ id.toList ∧ id ∉ digestIds db := by
  refine ⟨(mem_buildDigests hd).2, fun id hid => ?_⟩
  have hrow := mem_digest_iff.1 (List.mem_flatMap.2 ⟨d, hd, hid⟩)
  obtain ⟨n, hn, rfl, hdue⟩ := source_of_rows hp hrow
  refine ⟨n.id_plain, fun hmem => ?_⟩
  have hsent := (hi.sent n hn).2 hmem
  rw [unsent_of_due hdue] at hsent
  exact Bool.noConfusion hsent

include hsha hfilled

theorem sent_of_sendDigests (hi : DigestInv sha256 db) (hp : PagesInv f db.notifications s)
    (h : sendDigests sha256 subjectOf f.answer s db = .ok (outcome, db')) :
    Sent sha256 s db db' outcome := by
  unfold sendDigests at h
  split at h
  · next hnone =>
      have hrows := List.eq_nil_of_length_eq_zero hnone
      obtain ⟨rfl, rfl⟩ := Prod.mk.inj (Except.ok.inj h)
      constructor
      case notifications => rfl
      case digests => rw [hrows]; exact (List.append_nil _).symm
      case mailed => rw [hrows]; exact fun _ hd => absurd hd List.not_mem_nil
      case mails => exact fun m hm => .inl hm
      case outcome => rw [hrows]; rfl
  · simp only at h
    split at h
    · cases h
    · next emails written hsend =>
        obtain ⟨rfl, rfl⟩ := Prod.mk.inj (Except.ok.inj h)
        have hown : ∀ r ∈ (buildDigests s.rows).map (digestRecipient sha256), HasOwnKey r := by
          intro r hr
          obtain ⟨d, -, rfl⟩ := List.mem_map.1 hr
          exact ⟨_, rfl, key_ne_empty hfilled d.notificationIds⟩
        have hfree : ∀ r ∈ (buildDigests s.rows).map (digestRecipient sha256),
            keyTaken db.emails r.idempotencyKey = false := by
          intro r hr
          obtain ⟨d, hd, rfl⟩ := List.mem_map.1 hr
          obtain ⟨hne, hids⟩ := digest_of_rows hi hp hd
          exact keyTaken_eq_false hsha hi hne (fun id hid => (hids id hid).1)
            fun id hid => (hids id hid).2
        have hkeys : (((buildDigests s.rows).map (digestRecipient sha256)).map
            EmailRecipient.idempotencyKey).Nodup := by
          have hnodup := nodup_keys hsha (fun d hd =>
            ⟨(digest_of_rows hi hp hd).1, fun id hid => ((digest_of_rows hi hp hd).2 id hid).1⟩)
            ((ids_buildDigests s.rows).nodup_iff.2 (nodup_rows hp))
          have hsome := hnodup.map (Option.some_injective _)
          rw [List.map_map] at hsome ⊢
          exact hsome
        obtain ⟨hwritten, hmails⟩ := sendTemplateBatch_fresh hown hsend hfree hkeys
        constructor
        case notifications => rfl
        case digests =>
          show db.digests ++ writtenDigests _ written = _
          rw [hwritten, writtenDigests_all _ _ (List.length_map _)]
        case mailed =>
          intro d hd
          exact hmails _ (List.mem_map_of_mem hd)
        case mails =>
          intro m hm
          refine (key_of_sendTemplateBatch hown hsend hm).imp_right fun ⟨r, hr, hkey⟩ => ?_
          obtain ⟨d, hd, rfl⟩ := List.mem_map.1 hr
          exact ⟨d, hd, hkey⟩
        case outcome => rfl

end Send

/-! ## Runs -/

section Runs

variable {sha256 : String → List UInt8} {subjectOf : String → JsValue → Email.Locale → String}
  {f : Flush} {db db' : DigestDb} {s : PagesRead} {outcome : FlushOutcome}

theorem digestIds_sent (h : Sent sha256 s db db' outcome) : digestIds db' =
    digestIds db ++ (buildDigests s.rows).flatMap DigestGroup.notificationIds := by
  rw [digestIds, h.digests, List.flatMap_append]
  rfl

/-- A flush that commits keeps the account. -/
theorem digestInv_sent (hi : DigestInv sha256 db) (hp : PagesInv f db.notifications s)
    (h : Sent sha256 s db db' outcome) : DigestInv sha256 db' := by
  constructor
  case once =>
    rw [digestIds_sent h, List.nodup_append]
    refine ⟨hi.once, (ids_buildDigests s.rows).nodup_iff.2 (nodup_rows hp),
      fun id hold id' hnew heq => ?_⟩
    obtain ⟨d, hd, hid⟩ := List.mem_flatMap.1 hnew
    exact ((digest_of_rows hi hp hd).2 id' hid).2 (heq ▸ hold)
  case sent =>
    intro m hm
    rw [h.notifications, hp.view] at hm
    obtain ⟨n, hn, rfl⟩ := List.mem_map.1 hm
    rw [digestIds_sent h, List.mem_append, mem_digest_iff, mem_rows_ids hp, settled_id,
      ← hi.sent n hn, settled]
    cases sentIn s.read.flatten n.id <;> simp
  case plain =>
    intro d hd
    rw [h.digests, List.mem_append] at hd
    rcases hd with hd | hd
    · exact hi.plain d hd
    · obtain ⟨hne, hids⟩ := digest_of_rows hi hp hd
      exact ⟨hne, fun id hid => (hids id hid).1⟩
  case keys =>
    intro m hm key hkey hhex
    rw [h.digests]
    rcases h.mails m hm with hold | ⟨d, hd, hnew⟩
    · obtain ⟨d, hd, hsame⟩ := hi.keys m hold key hkey hhex
      exact ⟨d, List.mem_append_left _ hd, hsame⟩
    · exact ⟨d, List.mem_append_right _ hd, Option.some.inj (hkey.symm.trans hnew)⟩

/-- A flush without the lock changes nothing, one with it has read its pages. -/
theorem flush_cases {fuel : Nat}
    (h : flushDueNotifications sha256 subjectOf f fuel db = some (.ok (outcome, db'))) :
    (f.locked = false ∧ db' = db) ∨ ∃ s,
      flushPages f.now f.batchSize f.pages fuel 0 ⟨db.notifications, [], []⟩ = some (.ok s) ∧
        PagesInv f db.notifications s ∧
        sendDigests sha256 subjectOf f.answer s db = .ok (outcome, db') := by
  unfold flushDueNotifications at h
  split at h
  · cases h
  · split at h
    · next hlocked =>
        exact .inl ⟨by simpa using hlocked, (Prod.mk.inj (Except.ok.inj (Option.some.inj h))).2.symm⟩
    · split at h
      · cases h
      · cases h
      · next s hpages =>
          exact .inr ⟨s, hpages, flushPages_inv hpages rfl (pagesInv_start f db.notifications),
            Option.some.inj h⟩

variable (hsha : Function.Injective sha256) (hfilled : ∀ text, sha256 text ≠ [])

include hsha hfilled

theorem digestInv_step {db db' : DigestDb} {e : DigestEvent} (hi : DigestInv sha256 db)
    (hs : digestStep sha256 subjectOf db e = some db') : DigestInv sha256 db' := by
  cases e with
  | insert n =>
      simp only [digestStep] at hs
      split at hs
      · next hnew =>
          rw [Bool.and_eq_true, Bool.not_eq_true', Bool.eq_false_iff, Ne, inDigests_iff] at hnew
          obtain ⟨t, hins, rfl⟩ := Option.map_eq_some_iff.1 hs
          refine ⟨hi.once, fun m hm => ?_, hi.plain, hi.keys⟩
          rcases (Table.mem_insert hins).1 hm with rfl | hm
          · rw [Option.isNone_iff_eq_none.1 hnew.1]
            exact ⟨Bool.noConfusion, fun h => absurd h hnew.2⟩
          · exact hi.sent m hm
      · cases hs
  | delete gone =>
      obtain rfl := Option.some.inj hs
      exact ⟨hi.once, fun m hm => hi.sent m (Table.mem_delete.1 hm).1, hi.plain, hi.keys⟩
  | mails emails =>
      simp only [digestStep] at hs
      split at hs
      · next hkeys =>
          obtain rfl := Option.some.inj hs
          refine ⟨hi.once, hi.sent, hi.plain, fun m hm key hkey hhex => ?_⟩
          have hm := List.all_eq_true.1 hkeys m hm
          rw [hkey, Option.all_some, hhex, Bool.not_true, Bool.false_or, List.any_eq_true] at hm
          obtain ⟨old, hold, hsame⟩ := hm
          exact hi.keys old hold key (of_decide_eq_true hsame) hhex
      · cases hs
  | flush f fuel commits =>
      simp only [digestStep] at hs
      split at hs
      · next outcome db₁ hflush =>
          cases commits with
          | false =>
              obtain rfl := Option.some.inj hs
              exact hi
          | true =>
              obtain rfl := Option.some.inj hs
              rcases flush_cases hflush with ⟨-, hsame⟩ | ⟨s, -, hp, hsend⟩
              · exact hsame ▸ hi
              · exact digestInv_sent hi hp (sent_of_sendDigests hsha hfilled hi hp hsend)
      · obtain rfl := Option.some.inj hs
        exact hi

theorem digestInv_run {es : List DigestEvent} {db : DigestDb}
    (h : exec (digestStep sha256 subjectOf) emptyDigestDb es = some db) : DigestInv sha256 db :=
  runs_inv (fun _ _ _ hi hs => digestInv_step hsha hfilled hi hs) (digestInv_empty sha256) h

end Runs

/-! ## One flush -/

/-- What becomes of a row when the page that reads it finds that its e-mail is not
wanted, and what otherwise. -/
def Accounted (f : Flush) (db' : DigestDb) (digests : List DigestGroup) (page : PageRead)
    (n : NotificationRow) : Prop :=
  if n.eventType ∉ FORCED_EVENT_TYPES ∧ preferenceWants page.preferences n = false then
    { n with emailPendingAt := none } ∈ db'.notifications.rows ∧
      ∀ d ∈ digests, n.id ∉ d.notificationIds
  else
    { n with emailSentAt := some f.now } ∈ db'.notifications.rows ∧
      ∃ d, digests.filter (fun d => d.notificationIds.contains n.id) = [d] ∧
        d.notificationIds.count n.id = 1 ∧ d.userId = n.userId ∧ d.category = n.category

/-- What a flush that commits has done. `read` lists the pages it read. -/
structure FlushedExactly (sha256 : String → List UInt8) (f : Flush) (db db' : DigestDb)
    (read : List (List DueNotification)) (digests : List DigestGroup) : Prop where
  committed : db'.digests = db.digests ++ digests
  mailed : ∀ d ∈ digests, ∃ m ∈ db'.emails.rows,
    m.idempotencyKey = some (digestIdempotencyKey sha256 d.notificationIds) ∧
      m.toAddress = d.email
  one_each : (digests.map fun d => (d.userId, d.category)).Nodup
  read_once : (read.flatten.map fun c => c.id).Nodup
  accounted : ∀ n ∈ db.notifications.rows, isDueAt f.now n = true →
    (∀ index, (f.pages index).locked n.id = false) →
    ∃ index candidates c, read[index]? = some candidates ∧ c ∈ candidates ∧
      joinedRow (f.pages index) n = some c ∧ Accounted f db' digests (f.pages index) n
  untouched : ∀ n ∈ db.notifications.rows, n.id ∉ read.flatten.map (fun c => c.id) →
    n ∈ db'.notifications.rows ∧ ∀ d ∈ digests, n.id ∉ d.notificationIds
  only_due : ∀ d ∈ digests, ∀ id ∈ d.notificationIds,
    ∃ n ∈ db.notifications.rows, n.id = id ∧ isDueAt f.now n = true

/-- `notification.user_id` references `user.id`. -/
def KnowsUsers (f : Flush) (db : DigestDb) : Prop :=
  ∀ index, ∀ n ∈ db.notifications.rows, (f.pages index).locked n.id = false →
    ∃ user, (f.pages index).users.find? n.userId = some user

section Exact

variable {sha256 : String → List UInt8} {subjectOf : String → JsValue → Email.Locale → String}
  {f : Flush} {db db' : DigestDb} {s : PagesRead} {outcome : FlushOutcome}

theorem settled_mem (hp : PagesInv f db.notifications s) (h : Sent sha256 s db db' outcome)
    {n : NotificationRow} (hn : n ∈ db.notifications.rows) :
    settled f.now s.read.flatten n ∈ db'.notifications.rows := by
  rw [h.notifications, hp.view]
  exact List.mem_map_of_mem hn

/-- A row that was read is the only one with its id. -/
theorem any_read (hp : PagesInv f db.notifications s) {c : DueNotification}
    (hc : c ∈ s.read.flatten) (p : DueNotification → Bool) :
    (s.read.flatten.any fun x => x.id = c.id && p x) = p c := by
  rw [Bool.eq_iff_iff, List.any_eq_true]
  constructor
  · intro ⟨x, hx, h⟩
    obtain ⟨hid, hpx⟩ := Bool.and_eq_true_iff.1 h
    obtain rfl : x = c :=
      List.inj_on_of_nodup_map hp.once hx hc (of_decide_eq_true hid)
    exact hpx
  · exact fun hpc => ⟨c, hc, by rw [hpc, Bool.and_true]; exact decide_eq_true rfl⟩

theorem filter_of_disjoint {digests : List DigestGroup} {d : DigestGroup} {id : String}
    (h : digests.Pairwise fun a b => a.notificationIds.Disjoint b.notificationIds)
    (hd : d ∈ digests) (hid : id ∈ d.notificationIds) :
    digests.filter (fun d => d.notificationIds.contains id) = [d] := by
  induction digests with
  | nil => exact absurd hd List.not_mem_nil
  | cons x digests ih =>
      rw [List.pairwise_cons] at h
      rcases List.mem_cons.1 hd with rfl | hd
      · have hrest : digests.filter (fun d => d.notificationIds.contains id) = [] := by
          rw [List.filter_eq_nil_iff]
          intro y hy hmem
          exact h.1 y hy hid (List.contains_iff_mem.1 hmem)
        rw [List.filter_cons, if_pos (List.contains_iff_mem.2 hid), hrest]
      · have hnot : ¬ x.notificationIds.contains id = true := fun hmem =>
          h.1 d hd (List.contains_iff_mem.1 hmem) hid
        rw [List.filter_cons, if_neg hnot]
        exact ih h.2 hd

/-- An id of the rows is in the digest of its row's user and category, once. -/
theorem digest_of_row (hp : PagesInv f db.notifications s) {r : PendingRow} (hr : r ∈ s.rows) :
    ∃ d, (buildDigests s.rows).filter (fun d => d.notificationIds.contains r.id) = [d] ∧
      d.notificationIds.count r.id = 1 ∧ d.userId = r.userId ∧ d.category = r.category := by
  have hmem : r.id ∈ (buildDigests s.rows).flatMap DigestGroup.notificationIds :=
    mem_digest_iff.2 (List.mem_map_of_mem hr)
  obtain ⟨d, hd, hid⟩ := List.mem_flatMap.1 hmem
  have hflat : ((buildDigests s.rows).flatMap DigestGroup.notificationIds).Nodup :=
    (ids_buildDigests s.rows).nodup_iff.2 (nodup_rows hp)
  have hparts := List.nodup_flatMap.1 hflat
  refine ⟨d, filter_of_disjoint hparts.2 hd hid, List.count_eq_one_of_mem (hparts.1 d hd) hid, ?_⟩
  have hids := (mem_buildDigests hd).1
  rw [hids] at hid
  obtain ⟨x, hx, hxid⟩ := List.mem_map.1 hid
  obtain ⟨hx, hgroup⟩ := List.mem_filter.1 hx
  obtain rfl : x = r := List.inj_on_of_nodup_map (nodup_rows hp) hx hr hxid
  rw [Bool.and_eq_true, decide_eq_true_eq, decide_eq_true_eq] at hgroup
  exact ⟨hgroup.1.symm, hgroup.2.symm⟩

theorem unwanted_iff {preferences : Table PreferenceRow} {n : NotificationRow} :
    (n.eventType ∉ FORCED_EVENT_TYPES ∧ preferenceWants preferences n = false) ↔
      emailStillWanted preferences n = false := by
  rw [emailStillWanted, Bool.or_eq_false_iff, ← Bool.not_eq_true (FORCED_EVENT_TYPES.contains _),
    List.contains_iff_mem]

theorem accounted_of_read (hp : PagesInv f db.notifications s)
    (h : Sent sha256 s db db' outcome) {n : NotificationRow} (hn : n ∈ db.notifications.rows)
    {page : PageRead} {c : DueNotification} (hc : c ∈ s.read.flatten)
    (hjoin : joinedRow page n = some c) :
    Accounted f db' (buildDigests s.rows) page n := by
  have hid := joinedRow_id hjoin
  have hwanted := joinedRow_wanted hjoin
  have hdropped : droppedIn s.read.flatten n.id = !c.emailStillWanted := by
    rw [← hid]
    exact any_read hp hc fun x => !x.emailStillWanted
  have hsent : sentIn s.read.flatten n.id = c.emailStillWanted := by
    rw [← hid]
    exact any_read hp hc fun x => x.emailStillWanted
  have hmem := settled_mem hp h hn
  rw [settled, hdropped, hsent] at hmem
  rw [Accounted, if_congr unwanted_iff rfl rfl, ← hwanted]
  cases hw : c.emailStillWanted with
  | false =>
      rw [hw] at hmem hsent
      refine ⟨hmem, fun d hd hmemd => ?_⟩
      have hrow := mem_digest_iff.1 (List.mem_flatMap.2 ⟨d, hd, hmemd⟩)
      rw [mem_rows_ids hp, hsent] at hrow
      exact Bool.noConfusion hrow
  | true =>
      rw [hw] at hmem
      have hr : c.toPendingRow ∈ s.rows := by
        rw [hp.rows]
        exact List.mem_map_of_mem (List.mem_filter.2 ⟨hc, hw⟩)
      obtain ⟨d, hone, hcount, huser, hcategory⟩ := digest_of_row hp hr
      rw [hid] at hone hcount
      exact ⟨hmem, d, hone, hcount, huser.trans (joinedRow_userId hjoin),
        hcategory.trans (joinedRow_category hjoin)⟩

theorem flushedExactly_of_sent (hsize : 1 ≤ f.batchSize) (hknown : KnowsUsers f db)
    {fuel : Nat}
    (hpages : flushPages f.now f.batchSize f.pages fuel 0 ⟨db.notifications, [], []⟩ =
      some (.ok s))
    (hp : PagesInv f db.notifications s) (h : Sent sha256 s db db' outcome) :
    FlushedExactly sha256 f db db' s.read (buildDigests s.rows) := by
  constructor
  case committed => exact h.digests
  case mailed => exact h.mailed
  case one_each => exact nodup_buildDigests s.rows
  case read_once => exact hp.once
  case accounted =>
    intro n hn hdue hfree
    have hjoins : ∀ index, ∃ d, joinedRow (f.pages index) n = some d := by
      intro index
      obtain ⟨user, huser⟩ := hknown index n hn (hfree index)
      exact ⟨_, by rw [joinedRow, huser]; rfl⟩
    have hread := read_of_flushPages hsize hn hdue hfree hjoins hpages rfl
      (pagesInv_start f db.notifications)
    obtain ⟨index, candidates, c, hget, hc, hjoin⟩ := page_of_read hp hn hread
    have hflat : c ∈ s.read.flatten := List.mem_flatten.2 ⟨_, List.mem_of_getElem? hget, hc⟩
    exact ⟨index, candidates, c, hget, hc, hjoin, accounted_of_read hp h hn hflat hjoin⟩
  case untouched =>
    intro n hn hunread
    have hmem := settled_mem hp h hn
    rw [settled_of_unread hunread] at hmem
    refine ⟨hmem, fun d hd hmemd => hunread ?_⟩
    have hrow := mem_digest_iff.1 (List.mem_flatMap.2 ⟨d, hd, hmemd⟩)
    rw [mem_rows_ids hp] at hrow
    exact settledIn_iff.1 (by rw [hrow, Bool.or_true])
  case only_due =>
    intro d hd id hid
    exact source_of_rows hp (mem_digest_iff.1 (List.mem_flatMap.2 ⟨d, hd, hid⟩))

theorem flush_ends (f : Flush) (db : DigestDb) :
    ∃ out, ∀ fuel, dueCount f.now db.notifications < fuel →
      flushDueNotifications sha256 subjectOf f fuel db = some out := by
  unfold flushDueNotifications
  split
  · exact ⟨_, fun _ _ => rfl⟩
  · split
    · exact ⟨_, fun _ _ => rfl⟩
    · obtain ⟨out, hout⟩ := flushPages_total f.now f.batchSize f.pages 0
        ⟨db.notifications, [], []⟩
      cases out with
      | error e => exact ⟨_, fun fuel hfuel => by rw [hout fuel hfuel]⟩
      | ok s => exact ⟨_, fun fuel hfuel => by rw [hout fuel hfuel]⟩

end Exact

/-- Whatever flushes, failures and crashes came before, no row is in two committed
digests and none is marked sent without being in one; and a flush that holds the
lock comes to an end, and if that end is a commit, every due row that nobody held was
read on one page, and by what its preference was then it is dropped or in the one
digest of its user and category. -/
theorem digest_flush_exact {sha256 : String → List UInt8}
    {subjectOf : String → JsValue → Email.Locale → String} (hsha : Function.Injective sha256)
    (hfilled : ∀ text, sha256 text ≠ []) {es : List DigestEvent} {db : DigestDb}
    (hrun : exec (digestStep sha256 subjectOf) emptyDigestDb es = some db) :
    (digestIds db).Nodup ∧
      (∀ n ∈ db.notifications.rows, n.emailSentAt.isSome = true → n.id ∈ digestIds db) ∧
      ∀ f : Flush, f.locked = true → 1 ≤ f.batchSize → KnowsUsers f db →
        ∃ out, (∀ fuel, dueCount f.now db.notifications < fuel →
            flushDueNotifications sha256 subjectOf f fuel db = some out) ∧
          ∀ outcome db', out = .ok (outcome, db') → ∃ s digests,
            (∀ fuel, dueCount f.now db.notifications < fuel →
              flushPages f.now f.batchSize f.pages fuel 0 ⟨db.notifications, [], []⟩ =
                some (.ok s)) ∧
            outcome = ⟨false, digests.length, (digests.flatMap DigestGroup.notificationIds).length⟩ ∧
            FlushedExactly sha256 f db db' s.read digests := by
  have hi := digestInv_run hsha hfilled hrun
  refine ⟨hi.once, fun n hn => (hi.sent n hn).1, fun f hlocked hsize hknown => ?_⟩
  obtain ⟨out, hout⟩ := flush_ends f db
  refine ⟨out, hout, fun outcome db' hok => ?_⟩
  subst hok
  have hend := hout _ (Nat.lt_succ_self _)
  rcases flush_cases hend with ⟨hnot, -⟩ | ⟨s, hpages, hp, hsend⟩
  · exact absurd hlocked (by rw [hnot]; exact Bool.false_ne_true)
  · have hsent := sent_of_sendDigests hsha hfilled hi hp hsend
    obtain ⟨pages, hall⟩ := flushPages_total f.now f.batchSize f.pages 0
      ⟨db.notifications, [], []⟩
    have hsame := (hall _ (Nat.lt_succ_self _)).symm.trans hpages
    rw [Option.some.inj hsame] at hall
    refine ⟨s, buildDigests s.rows, hall, ?_, flushedExactly_of_sent hsize hknown hpages hp hsent⟩
    rw [hsent.outcome, (ids_buildDigests s.rows).length_eq, List.length_map]

/-! ## Three rows on two pages -/

/-- SHA-256 on the two texts the sample hashes. -/
def sampleDigest (text : String) : List UInt8 :=
  if text = "n1|n3" then
    [186, 109, 74, 115, 173, 116, 41, 34, 204, 172, 220, 194, 8, 165, 235, 25,
      151, 26, 40, 86, 189, 141, 24, 92, 114, 150, 47, 114, 255, 132, 181, 179]
  else if text = "n4" then
    [136, 69, 11, 8, 46, 196, 223, 47, 220, 205, 58, 98, 108, 110, 72, 155,
      49, 239, 140, 191, 21, 27, 213, 67, 172, 246, 232, 137, 15, 250, 31, 73]
  else List.replicate 33 0 ++ text.toByteArray.data.toList

theorem sampleDigest_cases (text : String) :
    (text = "n1|n3" ∧ sampleDigest text = sampleDigest "n1|n3") ∨
      (text = "n4" ∧ sampleDigest text = sampleDigest "n4") ∨
      sampleDigest text = List.replicate 33 0 ++ text.toByteArray.data.toList := by
  by_cases h : text = "n1|n3"
  · exact .inl ⟨h, by rw [h]⟩
  · by_cases h' : text = "n4"
    · exact .inr (.inl ⟨h', by rw [h']⟩)
    · exact .inr (.inr (by rw [sampleDigest, if_neg h, if_neg h']))

theorem sampleDigest_long (text : String) (l : List UInt8) (hl : l.length = 32) :
    l ≠ List.replicate 33 0 ++ text.toByteArray.data.toList := by
  intro h
  have hlength := congrArg List.length h
  rw [hl, List.length_append, List.length_replicate] at hlength
  omega

theorem sampleDigest_injective : Function.Injective sampleDigest := by
  intro a b h
  have h13 : (sampleDigest "n1|n3").length = 32 := by decide
  have h4 : (sampleDigest "n4").length = 32 := by decide
  have hne : sampleDigest "n1|n3" ≠ sampleDigest "n4" := by decide
  rcases sampleDigest_cases a with ⟨ha, hda⟩ | ⟨ha, hda⟩ | hda <;>
    rcases sampleDigest_cases b with ⟨hb, hdb⟩ | ⟨hb, hdb⟩ | hdb <;> rw [hda, hdb] at h
  · exact ha.trans hb.symm
  · exact absurd h hne
  · exact absurd h (sampleDigest_long b _ h13)
  · exact absurd h.symm hne
  · exact ha.trans hb.symm
  · exact absurd h (sampleDigest_long b _ h4)
  · exact absurd h.symm (sampleDigest_long a _ h13)
  · exact absurd h.symm (sampleDigest_long a _ h4)
  · have hbytes := List.append_cancel_left h
    exact String.toByteArray_inj.1 (ByteArray.ext (Array.toList_inj.1 hbytes))

theorem sampleDigest_filled (text : String) : sampleDigest text ≠ [] := by
  rcases sampleDigest_cases text with ⟨-, hd⟩ | ⟨-, hd⟩ | hd
  · rw [hd]; decide
  · rw [hd]; decide
  · rw [hd]; exact List.cons_ne_nil _ _

def sampleRow (id userId eventType : String) (category : NotificationCategory)
    (h : '|' ∉ id.toList) : NotificationRow :=
  ⟨id, userId, none, category, eventType, .obj [], some 100, none, h⟩

def sampleInserts : List DigestEvent := [
  .insert (sampleRow "n4" "grace" "org.member.joined" .org (by decide)),
  .insert (sampleRow "n3" "ada" "billing.payment.failed" .billing (by decide)),
  .insert (sampleRow "n2" "ada" "billing.quota.exceeded" .billing (by decide)),
  .insert (sampleRow "n1" "ada" "billing.payment.failed" .billing (by decide))]

def sampleUsers : Table DigestUser where
  rows := [⟨"ada", "ada@example.com", some "fr"⟩, ⟨"grace", "grace@example.com", none⟩]
  nodup := by decide

/-- Ada has turned billing mails off. -/
def samplePreferences : Table PreferenceRow where
  rows := [⟨.user, "ada", "billing", .email, false, false⟩]
  nodup := by decide

def samplePage : PageRead where
  users := sampleUsers
  preferences := samplePreferences
  locked := fun _ => false
  order := fun rows => rows
  order_perm := fun rows => List.Perm.refl rows
  claimFails := false
  dropFails := false
  markFails := false

def sampleFlush : Flush where
  now := 200
  batchSize := 2
  beginFails := false
  locked := true
  pages := fun _ => samplePage
  answer := ⟨fun index => if index = 0 then "m1" else "m2", 200, false, ""⟩

def sampleSubject (_ : String) (_ : JsValue) (_ : Email.Locale) : String := "digest"

/-- Two rows go in one digest over two pages, one in another, and one is dropped. -/
theorem digest_flush_exact_two_pages : ∃ db out db' s digests,
    exec (digestStep sampleDigest sampleSubject) emptyDigestDb sampleInserts = some db ∧
      flushDueNotifications sampleDigest sampleSubject sampleFlush 5 db =
        some (.ok (out, db')) ∧
      out = ⟨false, 2, 3⟩ ∧ (digestIds db).Nodup ∧
      FlushedExactly sampleDigest sampleFlush db db' s digests := by
  have hfacts : ((exec (digestStep sampleDigest sampleSubject) emptyDigestDb sampleInserts).map
      fun db => (dueCount 200 db.notifications,
        db.notifications.rows.all fun n => (sampleUsers.find? n.userId).isSome,
        (flushDueNotifications sampleDigest sampleSubject sampleFlush 5 db).map fun r =>
          r.toOption.map Prod.fst)) = some (4, true, some (some ⟨false, 2, 3⟩)) := by
    decide
  obtain ⟨db, hrun, hdb⟩ := Option.map_eq_some_iff.1 hfacts
  obtain ⟨hdue, hrest⟩ := Prod.mk.inj hdb
  obtain ⟨husers, hflush⟩ := Prod.mk.inj hrest
  have hknown : KnowsUsers sampleFlush db := fun _ n hn _ =>
    Option.isSome_iff_exists.1 (List.all_eq_true.1 husers n hn)
  obtain ⟨honce, -, hexact⟩ := digest_flush_exact sampleDigest_injective sampleDigest_filled hrun
  obtain ⟨out, hout, hcommit⟩ := hexact sampleFlush rfl (by decide) hknown
  rw [hout 5 (by rw [show sampleFlush.now = 200 from rfl, hdue]; decide)] at hflush
  cases out with
  | error e => cases hflush
  | ok result =>
      obtain ⟨outcome, db'⟩ := result
      obtain ⟨s, digests, -, -, hflushed⟩ := hcommit outcome db' rfl
      refine ⟨db, outcome, db', s.read, digests, hrun, hout 5 ?_, ?_, honce, hflushed⟩
      · rw [show sampleFlush.now = 200 from rfl, hdue]
        decide
      · exact Option.some.inj (Option.some.inj hflush)

end CleanStack.Notifications
