import Mathlib.Algebra.GroupWithZero.Nat
import Mathlib.Data.List.Forall2

/-!
# Codes that can be read back

A code writes a value as a list of symbols. It can be read back when no two
values that differ have codes one of which goes on where the other stops; a
code such as a number's, which another number's may continue, can still be
read back where only certain symbols may follow it. `Reads` says that of one
value, against every other: if the two codes, each followed by something that
may follow it, are the same text, then the values are related and the texts
after them are the same.

`reads_closed` lifts that from the items to a list written up to a closing
symbol, and `reads_list` to one that has separators as well.
-/

namespace CleanStack.Lib

variable {α σ : Type*}

/-- `ends` is what may follow a code, `ok` what the value is compared with, and
`R` what is read off. -/
def Reads (enc : α → List σ) (ends : List σ → Prop) (ok : α → Prop) (R : α → α → Prop)
    (a : α) : Prop :=
  ∀ b r s, ok b → ends r → ends s → enc a ++ r = enc b ++ s → R a b ∧ r = s

/-- Items with a separator between two of them. -/
def separated (sep : σ) : List (List σ) → List σ
  | [] => []
  | [x] => x
  | x :: y :: rest => x ++ sep :: separated sep (y :: rest)

/-- The same, read from the left: the items after the first carry their
separator. -/
theorem separated_cons (sep : σ) (x : List σ) (xs : List (List σ)) :
    separated sep (x :: xs) = x ++ xs.flatMap (sep :: ·) := by
  induction xs generalizing x with
  | nil => simp [separated]
  | cons y xs ih =>
      rw [separated, ih y, List.flatMap_cons]
      simp

theorem length_separated (sep : σ) (xs : List (List σ)) :
    (separated sep xs).length = (xs.map List.length).sum + (xs.length - 1) := by
  cases xs with
  | nil => rfl
  | cons x xs =>
      have hrest : (xs.flatMap (sep :: ·)).length = (xs.map List.length).sum + xs.length := by
        induction xs with
        | nil => rfl
        | cons y ys ih =>
            rw [List.flatMap_cons, List.length_append, ih]
            simp only [List.length_cons, List.map_cons, List.sum_cons]
            omega
      rw [separated_cons, List.length_append, hrest]
      simp only [List.map_cons, List.sum_cons, List.length_cons]
      omega

section Lists

variable {enc : α → List σ} {ends : List σ → Prop} {ok : α → Prop} {R : α → α → Prop}
  {sep close : σ}

/-- Items one after the other, up to a closing symbol no item starts with. -/
theorem reads_closed (hends : ∀ (as : List α) (r : List σ), ends (as.flatMap enc ++ close :: r))
    (hopen : ∀ a t u, enc a ++ t ≠ close :: u) {as : List α} :
    ∀ {bs : List α} {r s : List σ}, (∀ a ∈ as, Reads enc ends ok R a) → (∀ b ∈ bs, ok b) →
      as.flatMap enc ++ close :: r = bs.flatMap enc ++ close :: s →
      List.Forall₂ R as bs ∧ r = s := by
  induction as with
  | nil =>
      intro bs r s _ _ h
      cases bs with
      | nil => exact ⟨.nil, (List.cons.inj h).2⟩
      | cons b bs =>
          rw [List.flatMap_cons, List.append_assoc, List.flatMap_nil, List.nil_append] at h
          exact absurd h.symm (hopen b _ r)
  | cons a as ih =>
      intro bs r s has hbs h
      cases bs with
      | nil =>
          rw [List.flatMap_cons, List.append_assoc, List.flatMap_nil, List.nil_append] at h
          exact absurd h (hopen a _ s)
      | cons b bs =>
          rw [List.flatMap_cons, List.flatMap_cons, List.append_assoc,
            List.append_assoc] at h
          obtain ⟨hR, hrest⟩ := has a List.mem_cons_self b _ _ (hbs b List.mem_cons_self)
            (hends as r) (hends bs s) h
          obtain ⟨hRs, hr⟩ := ih (fun x hx => has x (List.mem_cons_of_mem _ hx))
            (fun x hx => hbs x (List.mem_cons_of_mem _ hx)) hrest
          exact ⟨.cons hR hRs, hr⟩

/-- What stands after an item of a list: the next separator or the bracket. -/
theorem ends_items (hsep : ∀ t, ends (sep :: t)) (hclose : ∀ t, ends (close :: t))
    (as : List α) (r : List σ) :
    ends (as.flatMap (fun a => sep :: enc a) ++ close :: r) := by
  cases as with
  | nil => exact hclose r
  | cons a as =>
      rw [List.flatMap_cons, List.append_assoc, List.cons_append]
      exact hsep _

theorem Reads.behind (sep : σ) {a : α} (h : Reads enc ends ok R a) :
    Reads (fun a => sep :: enc a) ends ok R a :=
  fun b r s hb hr hs heq => h b r s hb hr hs (List.cons.inj heq).2

/-- A closed list whose items can be read back can be read back, when no item
starts with the closing symbol. -/
theorem reads_list (hne : sep ≠ close) (hsep : ∀ t, ends (sep :: t))
    (hclose : ∀ t, ends (close :: t)) (hopen : ∀ a t u, enc a ++ t ≠ close :: u)
    {as bs : List α} {r s : List σ} (has : ∀ a ∈ as, Reads enc ends ok R a)
    (hbs : ∀ b ∈ bs, ok b)
    (h : separated sep (as.map enc) ++ close :: r =
      separated sep (bs.map enc) ++ close :: s) :
    List.Forall₂ R as bs ∧ r = s := by
  cases as with
  | nil =>
      cases bs with
      | nil => exact ⟨.nil, (List.cons.inj h).2⟩
      | cons b bs =>
          rw [List.map_cons, separated_cons, List.append_assoc, List.map_nil, separated,
            List.nil_append] at h
          exact absurd h.symm (hopen b _ r)
  | cons a as =>
      cases bs with
      | nil =>
          rw [List.map_cons, separated_cons, List.append_assoc, List.map_nil, separated,
            List.nil_append] at h
          exact absurd h (hopen a _ s)
      | cons b bs =>
          rw [List.map_cons, List.map_cons, separated_cons, separated_cons,
            List.append_assoc, List.append_assoc, List.flatMap_map, List.flatMap_map] at h
          have hends : ∀ (l : List α) (t : List σ),
              ends (l.flatMap (fun a => sep :: enc a) ++ close :: t) :=
            ends_items hsep hclose
          obtain ⟨hR, hrest⟩ := has a List.mem_cons_self b _ _ (hbs b List.mem_cons_self)
            (hends as r) (hends bs s) h
          obtain ⟨hRs, hr⟩ := reads_closed hends
            (fun a t u heq => hne (List.cons.inj heq).1)
            (fun x hx => (has x (List.mem_cons_of_mem _ hx)).behind sep)
            (fun x hx => hbs x (List.mem_cons_of_mem _ hx)) hrest
          exact ⟨.cons hR hRs, hr⟩

end Lists

/-- A code that a reader undoes can be read back whatever follows it. -/
theorem reads_of_reader {enc : α → List σ} {read : List σ → Option (α × List σ)}
    (hread : ∀ a t, read (enc a ++ t) = some (a, t)) (ends : List σ → Prop)
    (ok : α → Prop) (a : α) : Reads enc ends ok Eq a := by
  intro b r s _ _ _ h
  have hsame : some (a, r) = some (b, s) := by
    rw [← hread a r, ← hread b s, h]
  exact Prod.mk.inj (Option.some.inj hsame)

/-- A run of symbols of one kind can be read back where no such symbol may
follow it. -/
theorem run_unique {p : σ → Bool} {xs ys r s : List σ} (hx : xs.all p = true)
    (hy : ys.all p = true) (hr : ∀ c ∈ r.head?, p c = false) (hs : ∀ c ∈ s.head?, p c = false)
    (h : xs ++ r = ys ++ s) : xs = ys ∧ r = s := by
  have htake : ∀ (l t : List σ), l.all p = true → (∀ c ∈ t.head?, p c = false) →
      (l ++ t).takeWhile p = l := by
    intro l t hl ht
    rw [List.takeWhile_append_of_pos fun c hc => List.all_eq_true.1 hl c hc]
    cases t with
    | nil => simp
    | cons c t => simp [ht c rfl]
  have hsame : xs = ys := by
    rw [← htake xs r hx hr, h, htake ys s hy hs]
  subst hsame
  exact ⟨rfl, List.append_cancel_left h⟩

/-- Items that do not have the separator in them can be told apart; the empty
list writes what the list of one empty item does. -/
theorem separated_injective [DecidableEq σ] {sep : σ} {xs : List (List σ)} :
    ∀ {ys : List (List σ)}, (∀ x ∈ xs, sep ∉ x) → (∀ y ∈ ys, sep ∉ y) → xs ≠ [] → ys ≠ [] →
      separated sep xs = separated sep ys → xs = ys := by
  have hfree : ∀ x : List σ, sep ∉ x → x.all (fun c => c ≠ sep) = true := by
    intro x hx
    rw [List.all_eq_true]
    exact fun c hc => decide_eq_true fun h => hx (h ▸ hc)
  have hnot : ∀ (x : List σ) (t : List σ), sep ∉ x → ∀ y, x ≠ y ++ sep :: t := by
    intro x t hx y h
    exact hx (h ▸ List.mem_append_right y List.mem_cons_self)
  induction xs with
  | nil => exact fun _ _ hne => absurd rfl hne
  | cons x rest ih =>
      intro ys hxs hys _ hne h
      cases ys with
      | nil => exact absurd rfl hne
      | cons y rest' =>
          have hx := hxs x List.mem_cons_self
          have hy := hys y List.mem_cons_self
          cases rest with
          | nil =>
              cases rest' with
              | nil => exact congrArg (fun z => [z]) h
              | cons y' rest' => exact absurd h (hnot x _ hx y)
          | cons x' rest =>
              cases rest' with
              | nil => exact absurd h.symm (hnot y _ hy x)
              | cons y' rest' =>
                  rw [separated, separated] at h
                  obtain ⟨hsame, htail⟩ := run_unique (hfree x hx) (hfree y hy)
                    (by simp) (by simp) h
                  have hrest := ih (fun z hz => hxs z (List.mem_cons_of_mem _ hz))
                    (fun z hz => hys z (List.mem_cons_of_mem _ hz)) (List.cons_ne_nil _ _)
                    (List.cons_ne_nil _ _) (List.cons.inj htail).2
                  rw [hsame, hrest]

theorem separated_cons_of_ne_nil (sep : σ) (x : List σ) {xs : List (List σ)} (h : xs ≠ []) :
    separated sep (x :: xs) = x ++ sep :: separated sep xs := by
  cases xs with
  | nil => exact absurd rfl h
  | cons y xs => rfl

/-- Equally many items without the separator can be told apart from one last
item that may have it. -/
theorem separated_last_injective [DecidableEq σ] {sep : σ} {xs : List (List σ)} :
    ∀ {ys : List (List σ)} {x y : List σ}, (∀ a ∈ xs, sep ∉ a) → (∀ b ∈ ys, sep ∉ b) →
      xs.length = ys.length → separated sep (xs ++ [x]) = separated sep (ys ++ [y]) →
      xs = ys ∧ x = y := by
  have hfree : ∀ x : List σ, sep ∉ x → x.all (fun c => c ≠ sep) = true := by
    intro x hx
    rw [List.all_eq_true]
    exact fun c hc => decide_eq_true fun h => hx (h ▸ hc)
  induction xs with
  | nil =>
      intro ys x y _ _ hlen h
      cases ys with
      | nil => exact ⟨rfl, h⟩
      | cons b ys => simp at hlen
  | cons a xs ih =>
      intro ys x y hxs hys hlen h
      cases ys with
      | nil => simp at hlen
      | cons b ys =>
          rw [List.cons_append, List.cons_append,
            separated_cons_of_ne_nil sep a (List.append_ne_nil_of_right_ne_nil _ (by simp)),
            separated_cons_of_ne_nil sep b (List.append_ne_nil_of_right_ne_nil _ (by simp))] at h
          obtain ⟨hsame, htail⟩ := run_unique (hfree a (hxs a List.mem_cons_self))
            (hfree b (hys b List.mem_cons_self)) (by simp) (by simp) h
          obtain ⟨hrest, hlast⟩ := ih (fun z hz => hxs z (List.mem_cons_of_mem _ hz))
            (fun z hz => hys z (List.mem_cons_of_mem _ hz)) (by simpa using hlen)
            (List.cons.inj htail).2
          rw [hsame, hrest]
          exact ⟨rfl, hlast⟩

end CleanStack.Lib
