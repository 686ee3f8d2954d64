import CleanStack.Kit.WatchedList

/-!
# What a watched list says has changed

Up to `compareItems` the four lists are four sets: what is current is what was
there initially and is not removed, and what is new. `add` keeps that. `remove`
does when it knows the item; one it never had it puts down as removed.
-/

namespace CleanStack.Kit

variable {T : Type*} {compareItems : T → T → Bool}

/-! ## Lists up to an equivalence -/

def Holds (compareItems : T → T → Bool) (items : List T) (x : T) : Prop :=
  ∃ v ∈ items, compareItems x v = true

theorem any_iff_holds {items : List T} {x : T} :
    (items.any fun v => compareItems x v) = true ↔ Holds compareItems items x := by
  simp [Holds]

theorem not_any_iff_holds {items : List T} {x : T} :
    (items.any fun v => compareItems x v) = false ↔ ¬Holds compareItems items x := by
  rw [← any_iff_holds, Bool.not_eq_true]

theorem holds_append {items : List T} {x y : T} :
    Holds compareItems (items ++ [y]) x ↔ Holds compareItems items x ∨ compareItems x y = true := by
  simp [Holds, or_and_right, exists_or]

section Equivalent

variable (he : Equivalence fun a b => compareItems a b = true)
include he

theorem holds_congr {items : List T} {x y : T} (h : compareItems x y = true) :
    Holds compareItems items x ↔ Holds compareItems items y := by
  constructor
  · rintro ⟨v, hv, hx⟩
    exact ⟨v, hv, he.trans (he.symm h) hx⟩
  · rintro ⟨v, hv, hy⟩
    exact ⟨v, hv, he.trans h hy⟩

theorem compare_comm (x y : T) : compareItems x y = compareItems y x :=
  Bool.eq_iff_iff.2 ⟨fun h => he.symm h, fun h => he.symm h⟩

/-- Taking one item out takes its class out. -/
theorem holds_filter {items : List T} {x y : T} :
    Holds compareItems (items.filter fun v => !compareItems y v) x ↔
      Holds compareItems items x ∧ ¬compareItems x y = true := by
  simp only [Holds, List.mem_filter, Bool.not_eq_true']
  constructor
  · rintro ⟨v, ⟨hv, hyv⟩, hxv⟩
    refine ⟨⟨v, hv, hxv⟩, fun hxy => ?_⟩
    rw [he.trans (he.symm hxy) hxv] at hyv
    cases hyv
  · rintro ⟨⟨v, hv, hxv⟩, hxy⟩
    refine ⟨v, ⟨hv, Bool.eq_false_iff.2 fun hyv => hxy (he.trans hxv (he.symm hyv))⟩, hxv⟩

theorem holds_filter_flip {items : List T} {x y : T} :
    Holds compareItems (items.filter fun v => !compareItems v y) x ↔
      Holds compareItems items x ∧ ¬compareItems x y = true := by
  simp only [compare_comm he _ y, holds_filter he]

end Equivalent

/-! ## The law -/

/-- What a watched list promises, up to the equivalence. -/
structure Lawful (compareItems : T → T → Bool) (l : WatchedList T) : Prop where
  new_not_initial : ∀ x, Holds compareItems l.new x → ¬Holds compareItems l.initial x
  removed_initial : ∀ x, Holds compareItems l.removed x → Holds compareItems l.initial x
  current : ∀ x, Holds compareItems l.currentItems x ↔
    (Holds compareItems l.initial x ∧ ¬Holds compareItems l.removed x) ∨
      Holds compareItems l.new x
  new_not_removed : ∀ x, ¬(Holds compareItems l.new x ∧ Holds compareItems l.removed x)
  hasChanges : l.hasChanges = true ↔
    ¬∀ x, Holds compareItems l.currentItems x ↔ Holds compareItems l.initial x

theorem hasChanges_iff {l : WatchedList T} : l.hasChanges = true ↔ l.new ≠ [] ∨ l.removed ≠ [] := by
  rw [WatchedList.hasChanges, Bool.or_eq_true, decide_eq_true_eq, decide_eq_true_eq,
    List.length_pos_iff, List.length_pos_iff]

theorem holds_head (he : Equivalence fun a b => compareItems a b = true) {items : List T}
    (h : items ≠ []) : ∃ x, Holds compareItems items x := by
  obtain ⟨x, hx⟩ := List.exists_mem_of_ne_nil items h
  exact ⟨x, x, hx, he.refl x⟩

/-- The other two follow. -/
theorem lawful_of (he : Equivalence fun a b => compareItems a b = true) {l : WatchedList T}
    (hnew : ∀ x, Holds compareItems l.new x → ¬Holds compareItems l.initial x)
    (hremoved : ∀ x, Holds compareItems l.removed x → Holds compareItems l.initial x)
    (hcurrent : ∀ x, Holds compareItems l.currentItems x ↔
      (Holds compareItems l.initial x ∧ ¬Holds compareItems l.removed x) ∨
        Holds compareItems l.new x) : Lawful compareItems l := by
  refine ⟨hnew, hremoved, hcurrent, fun x h => hnew x h.1 (hremoved x h.2), ?_⟩
  rw [hasChanges_iff]
  constructor
  · rintro (hne | hne) hsame
    · obtain ⟨x, hx⟩ := holds_head he hne
      exact hnew x hx ((hsame x).1 ((hcurrent x).2 (.inr hx)))
    · obtain ⟨x, hx⟩ := holds_head he hne
      rcases (hcurrent x).1 ((hsame x).2 (hremoved x hx)) with hkept | hadded
      · exact hkept.2 hx
      · exact hnew x hadded (hremoved x hx)
  · intro hdiffer
    by_contra hnone
    rw [not_or, not_not, not_not] at hnone
    refine hdiffer fun x => ?_
    rw [hcurrent x, hnone.1, hnone.2]
    simp [Holds]

theorem lawful_ofItems (he : Equivalence fun a b => compareItems a b = true)
    (initialItems : List T) : Lawful compareItems (.ofItems initialItems) := by
  have hnil : ∀ x, ¬Holds compareItems [] x := fun x h => by simp [Holds] at h
  exact lawful_of he (fun x h => absurd h (hnil x)) (fun x h => absurd h (hnil x)) fun x => by
    simp [WatchedList.ofItems, hnil x]

/-! ## One call -/

section Calls

variable {l : WatchedList T} {item : T}

/-- Each of the four lists after an `add`. -/
theorem add_eq : l.add compareItems item =
    { currentItems :=
        if !(l.currentItems.any fun v => compareItems item v) then l.currentItems ++ [item]
        else l.currentItems
      initial := l.initial
      new :=
        if !(l.new.any fun v => compareItems item v) &&
            !(l.initial.any fun v => compareItems item v) then l.new ++ [item]
        else l.new
      removed :=
        if l.removed.any fun v => compareItems item v then
          l.removed.filter fun v => !compareItems v item
        else l.removed } := by
  dsimp only [WatchedList.add, WatchedList.isRemovedItem, WatchedList.isNewItem,
    WatchedList.wasAddedInitially, WatchedList.isCurrentItem, WatchedList.removeFromRemoved]
  rcases Bool.eq_false_or_eq_true (l.removed.any fun v => compareItems item v) with hr | hr <;>
    rcases Bool.eq_false_or_eq_true (l.new.any fun v => compareItems item v) with hn | hn <;>
    rcases Bool.eq_false_or_eq_true (l.initial.any fun v => compareItems item v) with hi | hi <;>
    rcases Bool.eq_false_or_eq_true (l.currentItems.any fun v => compareItems item v) with hc | hc <;>
    simp only [hr, hn, hi, hc, Bool.not_true, Bool.not_false, Bool.and_true, Bool.and_false,
      if_true, if_false, Bool.false_eq_true]

/-- Each of the four lists after a `remove`. -/
theorem remove_eq : l.remove compareItems item =
    { currentItems := l.currentItems.filter fun v => !compareItems item v
      initial := l.initial
      new :=
        if l.new.any fun v => compareItems item v then
          l.new.filter fun v => !compareItems v item
        else l.new
      removed :=
        if !(l.new.any fun v => compareItems item v) &&
            !(l.removed.any fun v => compareItems item v) then l.removed ++ [item]
        else l.removed } := by
  dsimp only [WatchedList.remove, WatchedList.isRemovedItem, WatchedList.isNewItem,
    WatchedList.removeFromNew, WatchedList.removeFromCurrent]
  rcases Bool.eq_false_or_eq_true (l.new.any fun v => compareItems item v) with hn | hn <;>
    rcases Bool.eq_false_or_eq_true (l.removed.any fun v => compareItems item v) with hr | hr <;>
    simp only [hn, hr, Bool.not_true, Bool.not_false, Bool.and_true, Bool.and_false,
      if_true, if_false, Bool.false_eq_true]

/-- The item was there initially, or is new. -/
def Known (compareItems : T → T → Bool) (l : WatchedList T) (item : T) : Prop :=
  l.wasAddedInitially compareItems item = true ∨ l.isNewItem compareItems item = true

variable (he : Equivalence fun a b => compareItems a b = true)
include he

theorem holds_put {items : List T} {x : T} :
    Holds compareItems
        (if !(items.any fun v => compareItems item v) then items ++ [item] else items) x ↔
      Holds compareItems items x ∨ compareItems x item = true := by
  cases hin : items.any fun v => compareItems item v with
  | false => exact holds_append
  | true =>
    refine ⟨.inl, fun h => h.elim id fun hx => ?_⟩
    exact (holds_congr he hx).2 (any_iff_holds.1 hin)

/-- Taking an item out when it is there is taking it out. -/
theorem holds_take {items : List T} {x : T} :
    Holds compareItems
        (if items.any fun v => compareItems item v then
          items.filter fun v => !compareItems v item else items) x ↔
      Holds compareItems items x ∧ ¬compareItems x item = true := by
  cases hin : items.any fun v => compareItems item v with
  | true => exact holds_filter_flip he
  | false =>
    refine ⟨fun h => ⟨h, fun hx => ?_⟩, And.left⟩
    exact not_any_iff_holds.1 hin ((holds_congr he hx).1 h)

theorem holds_new_add (x : T) : Holds compareItems (l.add compareItems item).new x ↔
    Holds compareItems l.new x ∨
      (compareItems x item = true ∧ ¬Holds compareItems l.initial x) := by
  rw [add_eq]
  cases hinitial : l.initial.any fun v => compareItems item v with
  | true =>
    rw [Bool.not_true, Bool.and_false]
    refine ⟨.inl, fun h => h.elim id fun hx => absurd ?_ hx.2⟩
    exact (holds_congr he hx.1).2 (any_iff_holds.1 hinitial)
  | false =>
    rw [Bool.not_false, Bool.and_true, holds_put he]
    refine or_congr_right ⟨fun hx => ⟨hx, fun h => ?_⟩, And.left⟩
    exact not_any_iff_holds.1 hinitial ((holds_congr he hx).1 h)

theorem holds_removed_remove (x : T) : Holds compareItems (l.remove compareItems item).removed x ↔
    Holds compareItems l.removed x ∨
      (compareItems x item = true ∧ ¬Holds compareItems l.new x) := by
  rw [remove_eq]
  cases hnew : l.new.any fun v => compareItems item v with
  | true =>
    rw [Bool.not_true, Bool.false_and]
    refine ⟨.inl, fun h => h.elim id fun hx => absurd ?_ hx.2⟩
    exact (holds_congr he hx.1).2 (any_iff_holds.1 hnew)
  | false =>
    rw [Bool.not_false, Bool.true_and, holds_put he]
    refine or_congr_right ⟨fun hx => ⟨hx, fun h => ?_⟩, And.left⟩
    exact not_any_iff_holds.1 hnew ((holds_congr he hx).1 h)

theorem lawful_add (h : Lawful compareItems l) : Lawful compareItems (l.add compareItems item) := by
  have hinitial : (l.add compareItems item).initial = l.initial := by rw [add_eq]
  refine lawful_of he (fun x hx => ?_) (fun x hx => ?_) fun x => ?_
  · rw [hinitial]
    rcases (holds_new_add he x).1 hx with hx | hx
    · exact h.new_not_initial x hx
    · exact hx.2
  · rw [hinitial]
    rw [add_eq, holds_take he] at hx
    exact h.removed_initial x hx.1
  · rw [hinitial, holds_new_add he, add_eq, holds_put he, holds_take he, h.current x]
    by_cases hx : compareItems x item = true <;>
      by_cases hi : Holds compareItems l.initial x <;> simp [hx, hi]

theorem lawful_remove (h : Lawful compareItems l) (hknown : Known compareItems l item) :
    Lawful compareItems (l.remove compareItems item) := by
  have hinitial : (l.remove compareItems item).initial = l.initial := by rw [remove_eq]
  have hitem : ∀ x, compareItems x item = true →
      Holds compareItems l.initial x ∨ Holds compareItems l.new x := fun x hx => by
    rw [holds_congr he hx, holds_congr he hx, ← any_iff_holds, ← any_iff_holds]
    exact hknown
  refine lawful_of he (fun x hx => ?_) (fun x hx => ?_) fun x => ?_
  · rw [hinitial]
    rw [remove_eq, holds_take he] at hx
    exact h.new_not_initial x hx.1
  · rw [hinitial]
    rcases (holds_removed_remove he x).1 hx with hx | hx
    · exact h.removed_initial x hx
    · exact (hitem x hx.1).resolve_right hx.2
  · rw [hinitial, holds_removed_remove he, remove_eq, holds_take he, holds_filter he, h.current x]
    have hapart := h.new_not_initial x
    by_cases hx : compareItems x item = true
    · simp only [hx, not_true_eq_false, and_false, true_and, or_false, not_or, not_not, false_iff,
        not_and]
      exact fun hi _ hn => hapart hn hi
    · simp [hx]

/-- An item that is not known is put down as removed, without having been there initially. -/
theorem known_of_lawful_remove (h : Lawful compareItems (l.remove compareItems item)) :
    Known compareItems l item := by
  by_contra hunknown
  rw [Known, not_or, WatchedList.wasAddedInitially, WatchedList.isNewItem, any_iff_holds,
    any_iff_holds] at hunknown
  refine hunknown.1 ?_
  have hremoved : Holds compareItems (l.remove compareItems item).removed item :=
    (holds_removed_remove he item).2 (.inr ⟨he.refl item, hunknown.2⟩)
  have hinitial := h.removed_initial item hremoved
  rwa [remove_eq] at hinitial

end Calls

/-! ## Runs -/

theorem after_append (l : WatchedList T) (calls : List (ListCall T)) (call : ListCall T) :
    l.after compareItems (calls ++ [call]) = (l.after compareItems calls).apply compareItems call :=
  List.foldl_concat ..

/-- Every list a run of calls passes through keeps the law exactly when no call removes
an item that was neither there initially nor new. -/
theorem watched_list_law (he : Equivalence fun a b => compareItems a b = true)
    (initialItems : List T) (calls : List (ListCall T)) :
    (∀ n, Lawful compareItems
        ((WatchedList.ofItems initialItems).after compareItems (calls.take n))) ↔
      ∀ n item, calls[n]? = some (.remove item) →
        Known compareItems
          ((WatchedList.ofItems initialItems).after compareItems (calls.take n)) item := by
  constructor
  · intro hlawful n item hcall
    obtain ⟨hn, hget⟩ := List.getElem?_eq_some_iff.1 hcall
    have hnext := hlawful (n + 1)
    rw [List.take_succ_eq_append_getElem hn, hget, after_append] at hnext
    exact known_of_lawful_remove he hnext
  · intro hknown n
    induction n with
    | zero => exact lawful_ofItems he initialItems
    | succ n ih =>
      by_cases hn : n < calls.length
      · rw [List.take_succ_eq_append_getElem hn, after_append]
        cases hcall : calls[n] with
        | add item => exact lawful_add he ih
        | remove item =>
          exact lawful_remove he ih (hknown n item (List.getElem?_eq_some_iff.2 ⟨hn, hcall⟩))
      · rw [List.take_of_length_le (Nat.le_of_not_lt hn)] at ih
        rwa [List.take_of_length_le (Nat.le_succ_of_le (Nat.le_of_not_lt hn))]

theorem beq_equivalence : Equivalence fun a b : Nat => (a == b) = true :=
  ⟨fun a => beq_self_eq_true a, fun h => by simpa using Eq.symm (eq_of_beq h),
    fun h h' => by simpa using (eq_of_beq h).trans (eq_of_beq h')⟩

/-- Add an item, remove one that was there, then remove the added one. -/
theorem watched_list_law_three : Lawful (fun a b : Nat => a == b)
    ((WatchedList.ofItems [1, 2]).after (fun a b => a == b) [.add 3, .remove 1, .remove 3]) := by
  refine (watched_list_law beq_equivalence [1, 2] [.add 3, .remove 1, .remove 3]).2
    (fun n item hcall => ?_) 3
  rcases n with _ | _ | _ | n
  · cases hcall
  · cases hcall
    exact .inl (by decide)
  · cases hcall
    exact .inr (by decide)
  · cases hcall

/-- An item the list never had is put down as removed. -/
theorem stranger_removed : ¬Lawful (fun a b : Nat => a == b)
    ((WatchedList.ofItems []).after (fun a b => a == b) [.remove 1]) := by
  intro h
  obtain ⟨v, hv, -⟩ := h.removed_initial 1 ⟨1, by decide, by decide⟩
  cases hv

end CleanStack.Kit
