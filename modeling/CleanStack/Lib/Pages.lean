import Mathlib.Data.List.Perm.Subperm
import Mathlib.Data.List.Sort

/-!
# Lists in pages

A list is served from the greatest key down, some rows at a time, and each page
but the last comes with a cursor made of its last row. The next page has the
rows below what the cursor keeps of that row's key: a bound, which may be less
than the key.

Following the cursors visits every row exactly when, wherever a page ends, the
next row is below the bound of the last one. What the rows share a key with is
left to the query: it may put them in any order, and in another order on the
next page.
-/

namespace CleanStack.Lib

variable {α γ K : Type*}

/-- A query's `ORDER BY key DESC`. -/
structure Descending [LE K] (key : α → K) where
  arrange : List α → List α
  perm : ∀ rows, (arrange rows).Perm rows
  sorted : ∀ rows, (arrange rows).Pairwise fun a b => key b ≤ key a

/-- The order that keeps rows of one key as they come. -/
def Descending.stable [LinearOrder K] (key : α → K) : Descending key where
  arrange rows := rows.insertionSort fun a b => key b ≤ key a
  perm rows := List.perm_insertionSort _ rows
  sorted rows :=
    have : Std.Total (fun a b : α => key b ≤ key a) := ⟨fun a b => le_total (key b) (key a)⟩
    have : IsTrans α (fun a b => key b ≤ key a) := ⟨fun _ _ _ hab hbc => hbc.trans hab⟩
    List.pairwise_insertionSort _ rows

structure Page (α γ : Type*) where
  items : List α
  nextCursor : Option γ
  deriving DecidableEq

/-- The rows a list hands over, from a cursor on, to who follows its cursors
until it returns none. -/
inductive Visits (list : Option γ → Option (Page α γ)) : Option γ → List α → Prop
  | last {cursor : Option γ} {items : List α} :
      list cursor = some ⟨items, none⟩ → Visits list cursor items
  | next {cursor : Option γ} {items rest : List α} {nextCursor : γ} :
      list cursor = some ⟨items, some nextCursor⟩ → Visits list (some nextCursor) rest →
      Visits list cursor (items ++ rest)

theorem Visits.unique {list : Option γ → Option (Page α γ)} {cursor : Option γ} {xs ys : List α}
    (hx : Visits list cursor xs) (hy : Visits list cursor ys) : xs = ys := by
  induction hx generalizing ys with
  | last hpage =>
      cases hy with
      | last hpage' =>
          rw [hpage] at hpage'
          cases hpage'
          rfl
      | next hpage' _ =>
          rw [hpage] at hpage'
          cases hpage'
  | next hpage _ ih =>
      cases hy with
      | last hpage' =>
          rw [hpage] at hpage'
          cases hpage'
      | next hpage' hrest =>
          rw [hpage] at hpage'
          cases hpage'
          rw [ih hrest]

variable [LinearOrder K]

/-- Every row is visited once, from the greatest key down. -/
def VisitsEverything (list : Option γ → Option (Page α γ)) (rows : List α) (key : α → K) : Prop :=
  ∃ visited, Visits list none visited ∧ visited.Perm rows ∧
    visited.Pairwise fun a b => key b ≤ key a

/-! ## Where pages end -/

/-- Where a page ends, the next key is below the bound of the last one. -/
def Apart (bound : K → K) (limit : Nat) (keys : List K) : Prop :=
  ∀ i, 0 < i → limit ∣ i → ∀ _ : i < keys.length, keys[i] < bound keys[i - 1]

theorem apart_of_length_le {bound : K → K} {limit : Nat} {keys : List K}
    (h : keys.length ≤ limit) : Apart bound limit keys := by
  intro i hpos hdvd hi
  have := Nat.le_of_dvd hpos hdvd
  omega

theorem apart_iff_of_length_lt {bound : K → K} {limit : Nat} {keys : List K} (hlimit : 0 < limit)
    (h : limit < keys.length) :
    Apart bound limit keys ↔
      keys[limit] < bound keys[limit - 1] ∧ Apart bound limit (keys.drop limit) := by
  constructor
  · intro hapart
    refine ⟨hapart limit hlimit (Nat.dvd_refl limit) h, ?_⟩
    intro i hpos hdvd hi
    rw [List.length_drop] at hi
    have hat := hapart (limit + i) (by omega) (Nat.dvd_add (Nat.dvd_refl limit) hdvd) (by omega)
    have hindex : limit + i - 1 = limit + (i - 1) := by omega
    simpa only [List.getElem_drop, hindex] using hat
  · intro ⟨hfirst, hrest⟩ i hpos hdvd hi
    have hle := Nat.le_of_dvd hpos hdvd
    by_cases hlast : i = limit
    · subst hlast
      exact hfirst
    · have hat := hrest (i - limit) (by omega) (Nat.dvd_sub hdvd (Nat.dvd_refl limit))
        (by rw [List.length_drop]; omega)
      have hindex : limit + (i - limit) = i := by omega
      have hindex' : limit + (i - limit - 1) = i - 1 := by omega
      simpa only [List.getElem_drop, hindex, hindex'] using hat

/-- Keys that go strictly down are apart when the cursor keeps all of them. -/
theorem apart_of_strict {limit : Nat} {keys : List K} (h : keys.Pairwise fun a b => b < a) :
    Apart id limit keys := by
  intro i hpos _ hi
  exact List.pairwise_iff_getElem.1 h (i - 1) i (by omega) hi (by omega)

/-- Keys from the greatest down. -/
def fromGreatest (keys : List K) : List K := keys.insertionSort fun a b => b ≤ a

theorem map_arrange {key : α → K} (order : Descending key) (rows : List α) :
    (order.arrange rows).map key = fromGreatest (rows.map key) := by
  have hsorted : (fromGreatest (rows.map key)).Pairwise fun a b => b ≤ a :=
    (Descending.stable (id : K → K)).sorted _
  have hperm : ((order.arrange rows).map key).Perm (fromGreatest (rows.map key)) :=
    ((order.perm rows).map key).trans (List.perm_insertionSort _ _).symm
  exact hperm.eq_of_pairwise (fun a b _ _ hab hba => le_antisymm hba hab)
    (List.pairwise_map.2 (order.sorted rows)) hsorted

/-! ## Pages by a bound -/

/-- Rows by a key, the rows that each cursor admits, and the cursor of a row. -/
structure Paged (α γ K : Type*) [LinearOrder K] where
  rows : List α
  key : α → K
  order : Descending key
  admits : Option γ → α → Bool
  cursorOf : α → γ
  bound : K → K
  bound_le : ∀ k, bound k ≤ k
  admits_none : ∀ r ∈ rows, admits none r = true
  admits_cursorOf : ∀ x ∈ rows, ∀ r ∈ rows,
    admits (some (cursorOf x)) r = decide (key r < bound (key x))

namespace Paged

variable (p : Paged α γ K) (more : Nat → Bool) (limit : Nat) {cursor : Option γ}

def after (cursor : Option γ) : List α := p.order.arrange (p.rows.filter (p.admits cursor))

/-- A page of at most `limit` rows; `more` says from how many rows there are
whether another page follows. -/
def page (cursor : Option γ) : Page α γ :=
  if more (p.after cursor).length then
    ⟨(p.after cursor).take limit, ((p.after cursor).take limit).getLast?.map p.cursorOf⟩
  else ⟨p.after cursor, none⟩

/-- The cursors a page can come with, and the lack of one that asks for the
first page. -/
def Issued (cursor : Option γ) : Prop := ∀ c, cursor = some c → ∃ x ∈ p.rows, p.cursorOf x = c

theorem issued_none : p.Issued none :=
  fun _ h => nomatch h

variable {p}

theorem after_sorted (p : Paged α γ K) (cursor : Option γ) :
    (p.after cursor).Pairwise fun a b => p.key b ≤ p.key a :=
  p.order.sorted _

theorem mem_after {r : α} : r ∈ p.after cursor ↔ r ∈ p.rows ∧ p.admits cursor r = true := by
  rw [after, (p.order.perm _).mem_iff, List.mem_filter]

theorem after_none : p.after none = p.order.arrange p.rows := by
  rw [after, List.filter_eq_self.2 p.admits_none]

theorem issued_cursorOf {x : α} (hx : x ∈ p.after cursor) : p.Issued (some (p.cursorOf x)) := by
  intro c hc
  exact ⟨x, (mem_after.1 hx).1, Option.some.inj hc⟩

/-- Below the bound of an admitted row, everything is admitted. -/
theorem admits_of_below {x r : α} (hissued : p.Issued cursor) (hx : x ∈ p.after cursor)
    (hr : r ∈ p.rows) (hbelow : p.key r < p.bound (p.key x)) : p.admits cursor r = true := by
  obtain ⟨hxrows, hadmits⟩ := mem_after.1 hx
  cases cursor with
  | none => exact p.admits_none r hr
  | some c =>
      obtain ⟨y, hy, rfl⟩ := hissued c rfl
      rw [p.admits_cursorOf y hy x hxrows, decide_eq_true_iff] at hadmits
      rw [p.admits_cursorOf y hy r hr, decide_eq_true_iff]
      exact (hbelow.trans_le (p.bound_le _)).trans hadmits

/-- What comes after a row is what is left of the list below the row's bound. -/
theorem after_cursorOf_perm {x : α} {front back : List α} (hissued : p.Issued cursor)
    (hsplit : p.after cursor = front ++ x :: back) :
    (p.after (some (p.cursorOf x))).Perm
      (back.filter fun r => decide (p.key r < p.bound (p.key x))) := by
  have hx : x ∈ p.after cursor := by simp [hsplit]
  have hxrows := (mem_after.1 hx).1
  have hrows : p.rows.filter (p.admits (some (p.cursorOf x))) =
      (p.rows.filter (p.admits cursor)).filter
        fun r => decide (p.key r < p.bound (p.key x)) := by
    rw [List.filter_filter]
    apply List.filter_congr
    intro r hr
    rw [p.admits_cursorOf x hxrows r hr]
    by_cases hbelow : p.key r < p.bound (p.key x)
    · simp [hbelow, admits_of_below hissued hx hr hbelow]
    · simp [hbelow]
  have hsorted := after_sorted p cursor
  rw [hsplit, List.pairwise_append, List.pairwise_cons] at hsorted
  have habove : ∀ r, p.key x ≤ p.key r → decide (p.key r < p.bound (p.key x)) = false := by
    intro r hr
    exact decide_eq_false (not_lt.2 ((p.bound_le _).trans hr))
  have hfront : (front.filter fun r => decide (p.key r < p.bound (p.key x))) = [] := by
    rw [List.filter_eq_nil_iff]
    intro r hr
    rw [habove r (hsorted.2.2 r hr x List.mem_cons_self)]
    exact Bool.false_ne_true
  have hperm : (p.after (some (p.cursorOf x))).Perm
      ((p.after cursor).filter fun r => decide (p.key r < p.bound (p.key x))) := by
    have hafter : (p.after cursor).Perm (p.rows.filter (p.admits cursor)) := p.order.perm _
    refine (p.order.perm _).trans ?_
    rw [hrows]
    exact (hafter.filter _).symm
  rwa [hsplit, List.filter_append, List.filter_cons, habove x le_rfl, hfront, if_neg (by simp),
    List.nil_append] at hperm

/-! ## Following the cursors -/

/-- More rows than a page holds are told from none: in between, either will do. -/
structure Continues (more : Nat → Bool) (limit : Nat) : Prop where
  positive : 0 < limit
  of_lt : ∀ n, limit < n → more n = true
  le : ∀ n, more n = true → limit ≤ n

variable {more limit}

theorem page_of_not_more (h : ¬ more (p.after cursor).length = true) :
    p.page more limit cursor = ⟨p.after cursor, none⟩ :=
  if_neg h

/-- A page that goes on is full, and its cursor is that of its last row. -/
theorem page_of_more (hmore : Continues more limit)
    (h : more (p.after cursor).length = true) :
    ∃ front x back, p.after cursor = front ++ x :: back ∧ front.length + 1 = limit ∧
      p.page more limit cursor = ⟨front ++ [x], some (p.cursorOf x)⟩ := by
  have hle := hmore.le _ h
  have hpos := hmore.positive
  have hat : limit - 1 < (p.after cursor).length := by omega
  have hsplit := List.take_append_drop (limit - 1) (p.after cursor)
  rw [List.drop_eq_getElem_cons hat] at hsplit
  have htake : (p.after cursor).take limit =
      (p.after cursor).take (limit - 1) ++ [(p.after cursor)[limit - 1]] := by
    rw [← List.take_succ_eq_append_getElem hat]
    congr 1
    omega
  refine ⟨_, _, _, hsplit.symm, by rw [List.length_take]; omega, ?_⟩
  rw [page, if_pos h, htake, List.getLast?_concat]
  rfl

/-- The keys after a page's last row, as the rows that are left have them. -/
theorem keys_after_cursorOf {x : α} {front back : List α} (hissued : p.Issued cursor)
    (hsplit : p.after cursor = front ++ x :: back)
    (hbelow : ∀ r ∈ back, p.key r < p.bound (p.key x)) :
    (p.after (some (p.cursorOf x))).Perm back ∧
      (p.after (some (p.cursorOf x))).map p.key = back.map p.key := by
  have hperm := after_cursorOf_perm hissued hsplit
  rw [List.filter_eq_self.2 fun r hr => decide_eq_true (hbelow r hr)] at hperm
  have hsorted := after_sorted p cursor
  rw [hsplit, List.pairwise_append, List.pairwise_cons] at hsorted
  refine ⟨hperm, (hperm.map p.key).eq_of_pairwise (fun a b _ _ hab hba => le_antisymm hba hab)
    (List.pairwise_map.2 (after_sorted p _)) (List.pairwise_map.2 hsorted.2.1.2)⟩

theorem below_of_next {x y : α} {front back : List α}
    (hsplit : p.after cursor = front ++ x :: y :: back)
    (h : p.key y < p.bound (p.key x)) : ∀ r ∈ y :: back, p.key r < p.bound (p.key x) := by
  have hsorted := after_sorted p cursor
  rw [hsplit, List.pairwise_append, List.pairwise_cons, List.pairwise_cons] at hsorted
  intro r hr
  rcases List.mem_cons.1 hr with rfl | hback
  · exact h
  · exact (hsorted.2.1.2.1 r hback).trans_lt h

/-- Apart at this page's end, and from there on. -/
theorem apart_after_iff {x : α} {front back : List α} (hissued : p.Issued cursor)
    (hsplit : p.after cursor = front ++ x :: back) (hfront : front.length + 1 = limit) :
    Apart p.bound limit ((p.after cursor).map p.key) ↔
      (∀ r ∈ back, p.key r < p.bound (p.key x)) ∧
        Apart p.bound limit ((p.after (some (p.cursorOf x))).map p.key) := by
  cases back with
  | nil =>
      have hnil : p.after (some (p.cursorOf x)) = [] :=
        List.perm_nil.1 (keys_after_cursorOf hissued hsplit (by simp)).1
      constructor
      · intro _
        rw [hnil]
        exact ⟨by simp, apart_of_length_le (Nat.zero_le limit)⟩
      · intro _
        apply apart_of_length_le
        rw [hsplit]
        simp [hfront]
  | cons y back =>
      have hlt : limit < ((p.after cursor).map p.key).length := by
        rw [hsplit]
        simp only [List.length_map, List.length_append, List.length_cons]
        omega
      have hkeys : (p.after cursor).map p.key =
          (front.map p.key ++ [p.key x]) ++ (y :: back).map p.key := by
        simp [hsplit]
      have hlen : (front.map p.key ++ [p.key x]).length = limit := by
        simpa using hfront
      have hnext : ((p.after cursor).map p.key)[limit] = p.key y := by
        simp [hkeys, List.getElem_append_right, ← hlen]
      have hlast : ((p.after cursor).map p.key)[limit - 1] = p.key x := by
        simp [hkeys, ← hfront]
      have hdrop : ((p.after cursor).map p.key).drop limit = (y :: back).map p.key := by
        rw [hkeys, ← hlen, List.drop_left]
      rw [apart_iff_of_length_lt (by omega) hlt, hnext, hlast, hdrop]
      constructor
      · intro ⟨hclear, hrest⟩
        have hbelow := below_of_next hsplit hclear
        rw [(keys_after_cursorOf hissued hsplit hbelow).2]
        exact ⟨hbelow, hrest⟩
      · intro ⟨hbelow, hrest⟩
        rw [(keys_after_cursorOf hissued hsplit hbelow).2] at hrest
        exact ⟨hbelow y List.mem_cons_self, hrest⟩

section Walks

variable {list : Option γ → Option (Page α γ)} (hmore : Continues more limit)
  (hlist : ∀ c, p.Issued c → list c = some (p.page more limit c))
include hmore hlist

/-- Pages repeat nothing and keep the order; they leave nothing out exactly
when their ends are apart. -/
theorem visited_of_visits {visited : List α} (hissued : p.Issued cursor)
    (hvisits : Visits list cursor visited) :
    List.Subperm visited (p.after cursor) ∧
      (visited.Pairwise fun a b => p.key b ≤ p.key a) ∧
      (visited.Perm (p.after cursor) ↔ Apart p.bound limit ((p.after cursor).map p.key)) := by
  induction hvisits with
  | @last cursor items hpage =>
      rw [hlist cursor hissued, Option.some.injEq] at hpage
      by_cases h : more (p.after cursor).length = true
      · obtain ⟨front, x, back, -, -, hfull⟩ := page_of_more hmore h
        rw [hfull] at hpage
        cases hpage
      · rw [page_of_not_more h] at hpage
        cases hpage
        refine ⟨List.Subperm.refl _, after_sorted p cursor, fun _ => ?_, fun _ => List.Perm.refl _⟩
        apply apart_of_length_le
        rw [List.length_map]
        by_contra hlt
        exact h (hmore.of_lt _ (by omega))
  | @next cursor items rest nextCursor hpage _ ih =>
      rw [hlist cursor hissued, Option.some.injEq] at hpage
      by_cases h : more (p.after cursor).length = true
      · obtain ⟨front, x, back, hsplit, hfront, hfull⟩ := page_of_more hmore h
        rw [hfull] at hpage
        cases hpage
        have hx : x ∈ p.after cursor := by simp [hsplit]
        obtain ⟨hsub, hpairwise, hiff⟩ := ih (issued_cursorOf hx)
        have hperm := after_cursorOf_perm hissued hsplit
        have hback : List.Subperm rest back :=
          (hsub.trans hperm.subperm).trans List.filter_sublist.subperm
        have hsplit' : p.after cursor = (front ++ [x]) ++ back := by simp [hsplit]
        have hsorted := after_sorted p cursor
        rw [hsplit', List.pairwise_append] at hsorted
        refine ⟨?_, ?_, ?_⟩
        · rw [hsplit']
          exact (List.subperm_append_left (front ++ [x])).2 hback
        · refine List.pairwise_append.2 ⟨hsorted.1, hpairwise, ?_⟩
          intro a ha b hb
          exact hsorted.2.2 a ha b (hback.subset hb)
        · rw [apart_after_iff hissued hsplit hfront, ← hiff, hsplit', List.perm_append_left_iff]
          constructor
          · intro hrest
            have hlen : back.length ≤
                (back.filter fun r => decide (p.key r < p.bound (p.key x))).length := by
              rw [← hrest.length_eq, ← hperm.length_eq]
              exact hsub.length_le
            have hall := List.filter_eq_self.1 (List.filter_sublist.eq_of_length_le hlen)
            have hbelow : ∀ r ∈ back, p.key r < p.bound (p.key x) := by
              intro r hr
              exact of_decide_eq_true (hall r hr)
            exact ⟨hbelow, hrest.trans (keys_after_cursorOf hissued hsplit hbelow).1.symm⟩
          · intro ⟨hbelow, hrest⟩
            exact hrest.trans (keys_after_cursorOf hissued hsplit hbelow).1
      · rw [page_of_not_more h] at hpage
        cases hpage

/-- A page that goes on has a row, so fewer rows are left for the next one. -/
theorem exists_visits (hissued : p.Issued cursor) : ∃ visited, Visits list cursor visited := by
  induction hn : (p.after cursor).length using Nat.strong_induction_on generalizing cursor with
  | _ n ih =>
      have hpage := hlist cursor hissued
      by_cases h : more (p.after cursor).length = true
      · obtain ⟨front, x, back, hsplit, hfront, hfull⟩ := page_of_more hmore h
        have hless : (p.after (some (p.cursorOf x))).length < n := by
          have hle := List.length_filter_le (fun r => decide (p.key r < p.bound (p.key x))) back
          rw [← hn, (after_cursorOf_perm hissued hsplit).length_eq, hsplit, List.length_append,
            List.length_cons]
          omega
        have hx : x ∈ p.after cursor := by simp [hsplit]
        obtain ⟨rest, hrest⟩ := ih _ hless (issued_cursorOf hx) rfl
        rw [hfull] at hpage
        exact ⟨_, .next hpage hrest⟩
      · rw [page_of_not_more h] at hpage
        exact ⟨_, .last hpage⟩

theorem visitsEverything_iff :
    VisitsEverything list p.rows p.key ↔
      Apart p.bound limit (fromGreatest (p.rows.map p.key)) := by
  rw [← map_arrange p.order, ← after_none]
  constructor
  · intro ⟨visited, hvisits, hperm, _⟩
    refine (visited_of_visits hmore hlist p.issued_none hvisits).2.2.1 (hperm.trans ?_)
    rw [after_none]
    exact (p.order.perm p.rows).symm
  · intro hapart
    obtain ⟨visited, hvisits⟩ := exists_visits hmore hlist p.issued_none
    obtain ⟨-, hpairwise, hiff⟩ := visited_of_visits hmore hlist p.issued_none hvisits
    have hperm := hiff.2 hapart
    rw [after_none] at hperm
    exact ⟨visited, hvisits, hperm.trans (p.order.perm p.rows), hpairwise⟩

/-- A cursor that keeps the key of a row that has it alone leaves nothing out. -/
theorem visitsEverything_of_nodup (hbound : ∀ k, p.bound k = k)
    (hnodup : (p.rows.map p.key).Nodup) : VisitsEverything list p.rows p.key := by
  rw [visitsEverything_iff hmore hlist, ← map_arrange p.order,
    show p.bound = id from funext hbound]
  apply apart_of_strict
  have hsorted : ((p.order.arrange p.rows).map p.key).Pairwise fun a b => b ≤ a :=
    List.pairwise_map.2 (p.order.sorted p.rows)
  have hdistinct : ((p.order.arrange p.rows).map p.key).Nodup :=
    ((p.order.perm p.rows).map p.key).nodup_iff.2 hnodup
  exact (hsorted.and hdistinct).imp fun h => lt_of_le_of_ne h.1 (Ne.symm h.2)

end Walks

/-! ## Telling whether there is more -/

/-- One row more than a page is read, and tells whether another page follows. -/
def lookahead (limit n : Nat) : Bool := decide (limit < n)

/-- A full page is taken to have another behind it. -/
def fullPage (limit n : Nat) : Bool := decide (limit ≤ n)

theorem continues_lookahead (h : 0 < limit) : Continues (lookahead limit) limit where
  positive := h
  of_lt _ hn := decide_eq_true hn
  le _ hn := (of_decide_eq_true hn).le

theorem continues_fullPage (h : 0 < limit) : Continues (fullPage limit) limit where
  positive := h
  of_lt _ hn := decide_eq_true hn.le
  le _ hn := of_decide_eq_true hn

theorem page_lookahead_eq {rows : List α} (h : (p.after cursor).take (limit + 1) = rows) :
    p.page (lookahead limit) limit cursor =
      ⟨rows.take limit,
        if limit < rows.length then (rows.take limit).getLast?.map p.cursorOf else none⟩ := by
  subst h
  rw [List.take_take, Nat.min_eq_left (Nat.le_succ limit), List.length_take]
  by_cases hlt : limit < (p.after cursor).length
  · rw [page, if_pos (show lookahead limit _ = true from decide_eq_true hlt), if_pos (by omega)]
  · rw [page_of_not_more (by simpa [lookahead] using hlt), if_neg (by omega),
      List.take_of_length_le (by omega)]

theorem page_fullPage_eq {rows : List α} (h : (p.after cursor).take limit = rows) :
    p.page (fullPage limit) limit cursor =
      ⟨rows, if rows.length = limit then rows.getLast?.map p.cursorOf else none⟩ := by
  subst h
  rw [List.length_take]
  by_cases hle : limit ≤ (p.after cursor).length
  · rw [page, if_pos (show fullPage limit _ = true from decide_eq_true hle), if_pos (by omega)]
  · rw [page_of_not_more (by simpa [fullPage] using hle), if_neg (by omega),
      List.take_of_length_le (by omega)]

end Paged

end CleanStack.Lib
