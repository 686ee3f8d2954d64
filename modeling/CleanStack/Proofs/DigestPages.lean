import CleanStack.Notifications.Digest

/-!
# What the pages of a flush do

A row that was read is no longer due, whichever way its page settled it, so no
page reads it again; that is why the loop ends, and why every page has as many
rows fewer to look at as the one before handed out. What the transaction sees
after some pages is the table it began with, each row settled by the rows that
were read (`PagesInv`).

The loop stops on a page with room to spare. That page left nothing behind that
it could have locked, so a due row that nobody held was read on it or before.
-/

namespace CleanStack.Notifications

open CleanStack.Lib CleanStack.Drizzle CleanStack.Email CleanStack.Events
open CleanStack.Admin (AppError)

section Claim

variable {page : PageRead} {t : Table NotificationRow} {now : Time} {limit : Nat}
  {candidates : List DueNotification} {n : NotificationRow} {d : DueNotification}

theorem joinedRow_id (h : joinedRow page n = some d) : d.id = n.id := by
  obtain ⟨user, -, rfl⟩ := Option.map_eq_some_iff.1 h
  rfl

theorem joinedRow_userId (h : joinedRow page n = some d) : d.userId = n.userId := by
  obtain ⟨user, -, rfl⟩ := Option.map_eq_some_iff.1 h
  rfl

theorem joinedRow_category (h : joinedRow page n = some d) : d.category = n.category := by
  obtain ⟨user, -, rfl⟩ := Option.map_eq_some_iff.1 h
  rfl

theorem joinedRow_wanted (h : joinedRow page n = some d) :
    d.emailStillWanted = emailStillWanted page.preferences n := by
  obtain ⟨user, -, rfl⟩ := Option.map_eq_some_iff.1 h
  rfl

/-- A row another transaction does not hold, of a user who is there. -/
theorem mem_joined : d ∈ (page.order (freeDue page t now)).filterMap (joinedRow page) ↔
    ∃ n ∈ t.rows, isDueAt now n = true ∧ page.locked n.id = false ∧
      joinedRow page n = some d := by
  rw [List.mem_filterMap]
  constructor
  · intro ⟨n, hn, hd⟩
    have hfree := List.mem_filter.1 ((page.order_perm _).mem_iff.1 hn)
    rw [Bool.and_eq_true, Bool.not_eq_true'] at hfree
    exact ⟨n, hfree.1, hfree.2.1, hfree.2.2, hd⟩
  · intro ⟨n, hn, hdue, hlocked, hd⟩
    refine ⟨n, (page.order_perm _).mem_iff.2 (List.mem_filter.2 ⟨hn, ?_⟩), hd⟩
    rw [hdue, hlocked]
    rfl

theorem claimDue_eq (h : claimDue page t now limit = .ok candidates) :
    candidates =
      ((page.order (freeDue page t now)).filterMap (joinedRow page)).take limit := by
  unfold claimDue at h
  split at h
  · cases h
  · exact (Except.ok.inj h).symm

theorem mem_claimDue (h : claimDue page t now limit = .ok candidates) (hd : d ∈ candidates) :
    ∃ n ∈ t.rows, isDueAt now n = true ∧ page.locked n.id = false ∧
      joinedRow page n = some d :=
  mem_joined.1 (List.mem_of_mem_take (claimDue_eq h ▸ hd))

theorem nodup_claimDue (h : claimDue page t now limit = .ok candidates) :
    (candidates.map fun c => c.id).Nodup := by
  have hids : ∀ rows : List NotificationRow,
      ((rows.filterMap (joinedRow page)).map fun c => c.id).Sublist
        (rows.map NotificationRow.id) := by
    intro rows
    induction rows with
    | nil => exact List.Sublist.refl _
    | cons n rows ih =>
        cases hn : joinedRow page n with
        | none =>
            rw [List.filterMap_cons_none hn, List.map_cons]
            exact ih.cons _
        | some d =>
            rw [List.filterMap_cons_some hn, List.map_cons, List.map_cons, joinedRow_id hn]
            exact ih.cons_cons _
  have hfree : ((page.order (freeDue page t now)).map NotificationRow.id).Nodup :=
    ((page.order_perm _).map _).nodup_iff.2
      (t.nodup.sublist (List.filter_sublist.map NotificationRow.id))
  rw [claimDue_eq h]
  exact hfree.sublist (((List.take_sublist _ _).map _).trans (hids _))

/-- A page with room to spare left nothing. -/
theorem mem_of_short_page (h : claimDue page t now limit = .ok candidates)
    (hshort : candidates.length < limit) (hn : n ∈ t.rows) (hdue : isDueAt now n = true)
    (hlocked : page.locked n.id = false) (hd : joinedRow page n = some d) : d ∈ candidates := by
  have heq := claimDue_eq h
  have hall : candidates = (page.order (freeDue page t now)).filterMap (joinedRow page) := by
    rw [heq, List.take_of_length_le]
    rw [heq, List.length_take] at hshort
    omega
  rw [hall]
  exact mem_joined.2 ⟨n, hn, hdue, hlocked, hd⟩

end Claim

/-! ## One page -/

def droppedIn (read : List DueNotification) (id : String) : Bool :=
  read.any fun c => c.id = id && !c.emailStillWanted

def sentIn (read : List DueNotification) (id : String) : Bool :=
  read.any fun c => c.id = id && c.emailStillWanted

theorem droppedIn_append (as bs : List DueNotification) (id : String) :
    droppedIn (as ++ bs) id = (droppedIn as id || droppedIn bs id) :=
  List.any_append

theorem sentIn_append (as bs : List DueNotification) (id : String) :
    sentIn (as ++ bs) id = (sentIn as id || sentIn bs id) :=
  List.any_append

theorem settledIn_iff {read : List DueNotification} {id : String} :
    (droppedIn read id || sentIn read id) = true ↔ id ∈ read.map fun c => c.id := by
  rw [droppedIn, sentIn, Bool.or_eq_true, List.any_eq_true, List.any_eq_true, List.mem_map]
  constructor
  · intro h
    obtain ⟨c, hc, h⟩ | ⟨c, hc, h⟩ := h
    · exact ⟨c, hc, of_decide_eq_true (Bool.and_eq_true_iff.1 h).1⟩
    · exact ⟨c, hc, of_decide_eq_true (Bool.and_eq_true_iff.1 h).1⟩
  · intro ⟨c, hc, hid⟩
    cases hw : c.emailStillWanted with
    | false => exact .inl ⟨c, hc, by simp [hid, hw]⟩
    | true => exact .inr ⟨c, hc, by simp [hid, hw]⟩

/-- A row after some rows were read: sent, dropped, or as it was. -/
def settled (now : Time) (read : List DueNotification) (n : NotificationRow) : NotificationRow :=
  { n with
    emailPendingAt := if droppedIn read n.id then none else n.emailPendingAt
    emailSentAt := if sentIn read n.id then some now else n.emailSentAt }

@[simp]
theorem settled_id (now : Time) (read : List DueNotification) (n : NotificationRow) :
    (settled now read n).id = n.id :=
  rfl

theorem settled_append (now : Time) (as bs : List DueNotification) (n : NotificationRow) :
    settled now (as ++ bs) n = settled now bs (settled now as n) := by
  simp only [settled, droppedIn_append, sentIn_append]
  have hor : ∀ (b c : Bool) (x y : Option Time), (if b || c then x else y) =
      if c then x else if b then x else y := by
    intro b c x y
    cases b <;> cases c <;> rfl
  congr 1
  · exact hor _ _ _ _
  · exact hor _ _ _ _

theorem settled_of_unread {now : Time} {read : List DueNotification} {n : NotificationRow}
    (h : n.id ∉ read.map fun c => c.id) : settled now read n = n := by
  have hnone := Bool.eq_false_iff.2 fun hset => h (settledIn_iff.1 hset)
  obtain ⟨hdropped, hsent⟩ := Bool.or_eq_false_iff.1 hnone
  simp [settled, hdropped, hsent]

/-- What was read is not due any more. -/
theorem isDueAt_settled (now now' : Time) (read : List DueNotification) (n : NotificationRow) :
    isDueAt now (settled now' read n) =
      (isDueAt now n && !(droppedIn read n.id || sentIn read n.id)) := by
  rw [isDueAt, isDueAt, settled]
  cases droppedIn read n.id <;> cases sentIn read n.id <;> simp

theorem unread_of_due {now now' : Time} {read : List DueNotification} {n : NotificationRow}
    (h : isDueAt now (settled now' read n) = true) : n.id ∉ read.map fun c => c.id := by
  rw [isDueAt_settled, Bool.and_eq_true, Bool.not_eq_true'] at h
  intro hmem
  rw [settledIn_iff.2 hmem] at h
  exact absurd h.2 (Bool.noConfusion)

theorem contains_ids (p : DueNotification → Bool) (read : List DueNotification) (id : String) :
    ((read.filter p).map fun c => c.id).contains id = read.any fun c => c.id = id && p c := by
  induction read with
  | nil => rfl
  | cons c read ih =>
      rw [List.filter_cons, List.any_cons]
      cases hp : p c with
      | false => simpa using ih
      | true =>
          rw [if_pos rfl, List.map_cons, List.contains_cons, ih, Bool.and_true]
          congr 1
          rw [Bool.eq_iff_iff, beq_iff_eq, decide_eq_true_eq]
          exact eq_comm

/-- A statement that only runs when it has rows is the statement. -/
theorem dropped_rows {page : PageRead} {t t' : Table NotificationRow} {ids : List String}
    (h : (if 0 < ids.length then dropUnwanted page t ids else .ok t) = .ok t') :
    t'.rows = t.rows.map fun n =>
      if ids.contains n.id then { n with emailPendingAt := none } else n := by
  split at h
  · unfold dropUnwanted at h
    split at h
    · cases h
    · rw [← Except.ok.inj h]
      rfl
  · next hnone =>
      rw [List.eq_nil_of_length_eq_zero (by omega : ids.length = 0), ← Except.ok.inj h]
      exact (List.map_id _).symm

theorem marked_rows {page : PageRead} {t t' : Table NotificationRow} {ids : List String}
    {sentAt : Time}
    (h : (if 0 < ids.length then markSent page t ids sentAt else .ok t) = .ok t') :
    t'.rows = t.rows.map fun n =>
      if ids.contains n.id then { n with emailSentAt := some sentAt } else n := by
  split at h
  · unfold markSent at h
    split at h
    · cases h
    · rw [← Except.ok.inj h]
      rfl
  · next hnone =>
      rw [List.eq_nil_of_length_eq_zero (by omega : ids.length = 0), ← Except.ok.inj h]
      exact (List.map_id _).symm

theorem bind_ok {ε α β : Type} {x : Except ε α} {f : α → Except ε β} {b : β}
    (h : x >>= f = .ok b) : ∃ a, x = .ok a ∧ f a = .ok b := by
  cases x with
  | error e => cases h
  | ok a => exact ⟨a, rfl, h⟩

theorem settled_eq (now : Time) (read : List DueNotification) (n : NotificationRow) :
    settled now read n =
      (fun m : NotificationRow => if sentIn read m.id then { m with emailSentAt := some now } else m)
        (if droppedIn read n.id then { n with emailPendingAt := none } else n) := by
  rw [settled]
  cases droppedIn read n.id with
  | false => cases hsent : sentIn read n.id <;> simp [hsent]
  | true => cases hsent : sentIn read n.id <;> simp [hsent]

theorem resolvePage_ok {page : PageRead} {now : Time} {candidates : List DueNotification}
    {s s' : PagesRead} (h : resolvePage page now candidates s = .ok s') :
    s'.notifications.rows = s.notifications.rows.map (settled now candidates) ∧
      s'.rows = s.rows ++
        (candidates.filter fun c => c.emailStillWanted).map DueNotification.toPendingRow ∧
      s'.read = s.read ++ [candidates] := by
  unfold resolvePage at h
  obtain ⟨t, hdrop, h⟩ := bind_ok h
  obtain ⟨u, hmark, h⟩ := bind_ok h
  rw [← List.length_map fun c : DueNotification => c.id] at hmark
  rw [← Except.ok.inj h]
  refine ⟨?_, rfl, rfl⟩
  show u.rows = _
  rw [marked_rows hmark, dropped_rows hdrop, List.map_map]
  refine List.map_congr_left fun n _ => ?_
  rw [Function.comp_apply, contains_ids, contains_ids]
  exact (settled_eq now candidates n).symm

/-! ## All pages -/

/-- What holds between two pages, the first of which saw `before`. -/
structure PagesInv (f : Flush) (before : Table NotificationRow) (s : PagesRead) : Prop where
  view : s.notifications.rows = before.rows.map (settled f.now s.read.flatten)
  rows : s.rows =
    (s.read.flatten.filter fun c => c.emailStillWanted).map DueNotification.toPendingRow
  once : (s.read.flatten.map fun c => c.id).Nodup
  source : ∀ index candidates, s.read[index]? = some candidates → ∀ d ∈ candidates,
    ∃ n ∈ before.rows, isDueAt f.now n = true ∧ (f.pages index).locked n.id = false ∧
      joinedRow (f.pages index) n = some d

theorem pagesInv_start (f : Flush) (before : Table NotificationRow) :
    PagesInv f before ⟨before, [], []⟩ where
  view := by
    show before.rows = before.rows.map (settled f.now [])
    rw [List.map_congr_left fun n _ => settled_of_unread (List.not_mem_nil), List.map_id']
  rows := rfl
  once := List.nodup_nil
  source := fun index candidates h => by simp at h

section Pages

variable {f : Flush} {before : Table NotificationRow} {s s' : PagesRead}
  {candidates : List DueNotification}

/-- A due row of the view is one of the rows the transaction began with, not read
so far. -/
theorem unread_of_view (hi : PagesInv f before s) {m : NotificationRow}
    (hm : m ∈ s.notifications.rows) (hdue : isDueAt f.now m = true) :
    m ∈ before.rows ∧ m.id ∉ s.read.flatten.map fun c => c.id := by
  rw [hi.view] at hm
  obtain ⟨n, hn, rfl⟩ := List.mem_map.1 hm
  have hunread := unread_of_due hdue
  rw [settled_of_unread hunread]
  exact ⟨hn, hunread⟩

theorem pagesInv_page (hi : PagesInv f before s)
    (hclaim : claimDue (f.pages s.read.length) s.notifications f.now f.batchSize =
      .ok candidates)
    (hpage : resolvePage (f.pages s.read.length) f.now candidates s = .ok s') :
    PagesInv f before s' := by
  obtain ⟨hview, hrows, hread⟩ := resolvePage_ok hpage
  have hflat : s'.read.flatten = s.read.flatten ++ candidates := by
    rw [hread, List.flatten_append, List.flatten_singleton]
  constructor
  case view =>
    rw [hview, hi.view, hflat, List.map_map]
    exact List.map_congr_left fun n _ => (settled_append _ _ _ n).symm
  case rows =>
    rw [hrows, hi.rows, hflat, List.filter_append, List.map_append]
  case once =>
    rw [hflat, List.map_append, List.nodup_append]
    refine ⟨hi.once, nodup_claimDue hclaim, fun id hid id' hid' heq => ?_⟩
    obtain ⟨d, hd, rfl⟩ := List.mem_map.1 hid'
    obtain ⟨m, hm, hdue, -, hjoin⟩ := mem_claimDue hclaim hd
    refine (unread_of_view hi hm hdue).2 ?_
    rw [← joinedRow_id hjoin, ← heq]
    exact hid
  case source =>
    intro index page hget d hd
    rw [hread, List.getElem?_append] at hget
    split at hget
    · exact hi.source index page hget d hd
    · next hlast =>
        have hindex : index = s.read.length := by
          rcases Nat.lt_or_ge (index - s.read.length) 1 with h | h
          · omega
          · rw [List.getElem?_eq_none (by simpa using h)] at hget
            cases hget
        subst hindex
        rw [Nat.sub_self, List.getElem?_cons_zero] at hget
        obtain rfl := Option.some.inj hget
        obtain ⟨m, hm, hdue, hlocked, hjoin⟩ := mem_claimDue hclaim hd
        exact ⟨m, (unread_of_view hi hm hdue).1, hdue, hlocked, hjoin⟩

/-- The page that read a row, and no other did. -/
theorem page_of_read (hi : PagesInv f before s) {n : NotificationRow} (hn : n ∈ before.rows)
    (hread : n.id ∈ s.read.flatten.map fun c => c.id) :
    ∃ index candidates d, s.read[index]? = some candidates ∧ d ∈ candidates ∧
      joinedRow (f.pages index) n = some d := by
  obtain ⟨d, hd, hid⟩ := List.mem_map.1 hread
  obtain ⟨candidates, hc, hd⟩ := List.mem_flatten.1 hd
  obtain ⟨index, hindex, hget⟩ := List.getElem_of_mem hc
  have hget : s.read[index]? = some candidates := by
    rw [List.getElem?_eq_getElem hindex, hget]
  obtain ⟨m, hm, -, -, hjoin⟩ := hi.source index candidates hget d hd
  have hsame : m = n := Table.eq_of_key hm hn ((joinedRow_id hjoin).symm.trans hid)
  exact ⟨index, candidates, d, hget, hd, hsame ▸ hjoin⟩

end Pages

/-! ## The loop -/

section Loop

variable {f : Flush} {before : Table NotificationRow}

def dueCount (now : Time) (t : Table NotificationRow) : Nat := (t.rows.filter (isDueAt now)).length

/-- A page that read something leaves fewer due rows. -/
theorem dueCount_lt {page : PageRead} {now : Time} {limit : Nat}
    {candidates : List DueNotification} {s s' : PagesRead}
    (hclaim : claimDue page s.notifications now limit = .ok candidates)
    (hne : candidates.length ≠ 0) (hpage : resolvePage page now candidates s = .ok s') :
    dueCount now s'.notifications < dueCount now s.notifications := by
  obtain ⟨d, hd⟩ := List.exists_mem_of_length_pos (Nat.pos_of_ne_zero hne)
  obtain ⟨n, hn, hdue, -, hjoin⟩ := mem_claimDue hclaim hd
  have hread : (droppedIn candidates n.id || sentIn candidates n.id) = true :=
    settledIn_iff.2 (List.mem_map.2 ⟨d, hd, joinedRow_id hjoin⟩)
  have hleft : (isDueAt now) ∘ settled now candidates = fun m =>
      !(droppedIn candidates m.id || sentIn candidates m.id) && isDueAt now m := by
    funext m
    rw [Function.comp_apply, isDueAt_settled, Bool.and_comm]
  rw [dueCount, dueCount, (resolvePage_ok hpage).1, List.filter_map, List.length_map, hleft,
    ← List.filter_filter, List.length_filter_lt_length_iff_exists]
  refine ⟨n, List.mem_filter.2 ⟨hn, hdue⟩, ?_⟩
  rw [hread]
  exact Bool.noConfusion

/-- The loop ends within as many pages as there are due rows, and one more. -/
theorem flushPages_ends (now : Time) (batchSize : Nat) (pages : Nat → PageRead) (fuel : Nat) :
    ∀ (index : Nat) (s : PagesRead), dueCount now s.notifications < fuel →
      ∃ out, flushPages now batchSize pages fuel index s = some out := by
  induction fuel with
  | zero => exact fun _ _ h => absurd h (Nat.not_lt_zero _)
  | succ fuel ih =>
      intro index s hfuel
      rw [flushPages]
      split
      · exact ⟨_, rfl⟩
      · next candidates hclaim =>
          split
          · exact ⟨_, rfl⟩
          · next hne =>
              split
              · exact ⟨_, rfl⟩
              · next s' hpage =>
                  split
                  · exact ⟨_, rfl⟩
                  · have hless := dueCount_lt hclaim hne hpage
                    exact ih (index + 1) s' (by omega)

/-- More fuel gives the same. -/
theorem flushPages_more (now : Time) (batchSize : Nat) (pages : Nat → PageRead) {more : Nat}
    {out : Except AppError PagesRead} (fuel : Nat) :
    ∀ (index : Nat) (s : PagesRead), flushPages now batchSize pages fuel index s = some out →
      flushPages now batchSize pages (fuel + more) index s = some out := by
  induction fuel with
  | zero => exact fun _ _ h => by cases h
  | succ fuel ih =>
      intro index s h
      rw [Nat.succ_add, flushPages]
      rw [flushPages] at h
      split at h
      · exact h
      · split at h
        · next hzero => rw [if_pos hzero]; exact h
        · next hne =>
            rw [if_neg hne]
            split at h
            · exact h
            · split at h
              · next hshort => rw [if_pos hshort]; exact h
              · next hfull =>
                  rw [if_neg hfull]
                  exact ih _ _ h

/-- The loop comes to the same end on any fuel that covers its due rows. -/
theorem flushPages_total (now : Time) (batchSize : Nat) (pages : Nat → PageRead) (index : Nat)
    (s : PagesRead) : ∃ out, ∀ fuel, dueCount now s.notifications < fuel →
      flushPages now batchSize pages fuel index s = some out := by
  obtain ⟨out, hout⟩ := flushPages_ends now batchSize pages (dueCount now s.notifications + 1)
    index s (Nat.lt_succ_self _)
  refine ⟨out, fun fuel hfuel => ?_⟩
  obtain ⟨more, rfl⟩ := Nat.exists_eq_add_of_le (Nat.succ_le_of_lt hfuel)
  exact flushPages_more now batchSize pages _ index s hout

theorem flushPages_inv {fuel : Nat} :
    ∀ {index : Nat} {s t : PagesRead},
      flushPages f.now f.batchSize f.pages fuel index s = some (.ok t) →
      index = s.read.length → PagesInv f before s → PagesInv f before t := by
  induction fuel with
  | zero => exact fun h => by cases h
  | succ fuel ih =>
      intro index s t h hindex hi
      rw [flushPages] at h
      split at h
      · cases h
      · next candidates hclaim =>
          split at h
          · obtain rfl := Except.ok.inj (Option.some.inj h)
            exact hi
          · split at h
            · cases h
            · next s' hpage =>
                subst hindex
                have hi' := pagesInv_page hi hclaim hpage
                split at h
                · obtain rfl := Except.ok.inj (Option.some.inj h)
                  exact hi'
                · refine ih h ?_ hi'
                  rw [(resolvePage_ok hpage).2.2, List.length_append, List.length_singleton]

/-- A due row of a known user that nobody held was read. -/
theorem read_of_flushPages (hsize : 1 ≤ f.batchSize) {n : NotificationRow}
    (hn : n ∈ before.rows) (hdue : isDueAt f.now n = true)
    (hfree : ∀ index, (f.pages index).locked n.id = false)
    (hknown : ∀ index, ∃ d, joinedRow (f.pages index) n = some d) {fuel : Nat} :
    ∀ {index : Nat} {s t : PagesRead},
      flushPages f.now f.batchSize f.pages fuel index s = some (.ok t) →
      index = s.read.length → PagesInv f before s →
      n.id ∈ t.read.flatten.map fun c => c.id := by
  -- on a page with room to spare a row that is still unread is among the rows read
  have hlast : ∀ {s : PagesRead} {candidates : List DueNotification}, PagesInv f before s →
      claimDue (f.pages s.read.length) s.notifications f.now f.batchSize = .ok candidates →
      candidates.length < f.batchSize →
      n.id ∈ s.read.flatten.map (fun c => c.id) ∨ n.id ∈ candidates.map fun c => c.id := by
    intro s candidates hi hclaim hshort
    by_cases hread : n.id ∈ s.read.flatten.map fun c => c.id
    · exact .inl hread
    · have hview : n ∈ s.notifications.rows := by
        rw [hi.view]
        exact List.mem_map.2 ⟨n, hn, settled_of_unread hread⟩
      obtain ⟨d, hjoin⟩ := hknown s.read.length
      have hd := mem_of_short_page hclaim hshort hview hdue (hfree _) hjoin
      exact .inr (List.mem_map.2 ⟨d, hd, joinedRow_id hjoin⟩)
  induction fuel with
  | zero => exact fun h => by cases h
  | succ fuel ih =>
      intro index s t h hindex hi
      rw [flushPages] at h
      split at h
      · cases h
      · next candidates hclaim =>
          subst hindex
          split at h
          · next hzero =>
              obtain rfl := Except.ok.inj (Option.some.inj h)
              rcases hlast hi hclaim (by omega) with hread | hread
              · exact hread
              · rw [List.eq_nil_of_length_eq_zero hzero] at hread
                exact absurd hread List.not_mem_nil
          · split at h
            · cases h
            · next s' hpage =>
                have hread' := (resolvePage_ok hpage).2.2
                split at h
                · next hshort =>
                    obtain rfl := Except.ok.inj (Option.some.inj h)
                    rw [hread', List.flatten_append, List.flatten_singleton, List.map_append,
                      List.mem_append]
                    exact hlast hi hclaim hshort
                · refine ih h ?_ (pagesInv_page hi hclaim hpage)
                  rw [hread', List.length_append, List.length_singleton]

end Loop

end CleanStack.Notifications
