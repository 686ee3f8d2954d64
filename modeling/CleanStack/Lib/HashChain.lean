import Mathlib.Data.List.Forall2
import Mathlib.Data.List.Induction

/-!
# Hash chains

A row of a chain carries two cells: the digest of the row before it and its
own. `Chained g rows` says the cells of `rows` are the right ones when the row
before the first had digest `g`. Either cell may be empty, and an empty cell is
never right.

What a row's digest covers is not fixed here. `chained_same` is where it
matters: when rows that name a previous digest and have the same digest say the
same and name the same one, and no digest is the one the chain starts from, the
digest of the last row fixes every row.
-/

namespace CleanStack.Lib

variable {ρ η : Type*}

section Chains

variable (previous own : ρ → Option η) (digest : ρ → η)

def Chained : η → List ρ → Prop
  | _, [] => True
  | g, r :: rs => previous r = some g ∧ own r = some (digest r) ∧ Chained (digest r) rs

/-- The digest a chain that starts at `g` has got to. -/
def reached (g : η) (rows : List ρ) : η := (rows.getLast?.map digest).getD g

end Chains

variable {previous own : ρ → Option η} {digest : ρ → η} {g : η}

@[simp]
theorem reached_nil : reached digest g [] = g :=
  rfl

@[simp]
theorem reached_concat (rows : List ρ) (r : ρ) :
    reached digest g (rows ++ [r]) = digest r := by
  rw [reached, List.getLast?_concat]
  rfl

theorem reached_cons (r : ρ) (rows : List ρ) :
    reached digest g (r :: rows) = reached digest (digest r) rows := by
  rw [reached, reached, List.getLast?_cons]
  cases rows.getLast? with
  | none => rfl
  | some last => rfl

/-- Two chains, the second starting where the first got to. -/
theorem chained_append {rows more : List ρ} :
    Chained previous own digest g (rows ++ more) ↔
      Chained previous own digest g rows ∧
        Chained previous own digest (reached digest g rows) more := by
  induction rows generalizing g with
  | nil => rw [List.nil_append, Chained, reached_nil, true_and]
  | cons r rows ih =>
      rw [List.cons_append, Chained, Chained, ih, reached_cons]
      simp only [and_assoc]

theorem chained_concat {rows : List ρ} {r : ρ} :
    Chained previous own digest g (rows ++ [r]) ↔
      Chained previous own digest g rows ∧
        previous r = some (reached digest g rows) ∧ own r = some (digest r) := by
  rw [chained_append, Chained, Chained, and_true]

/-- What is left of a chain when its end is cut off. -/
theorem chained_prefix {rows whole : List ρ} (hp : rows <+: whole)
    (h : Chained previous own digest g whole) : Chained previous own digest g rows := by
  obtain ⟨more, rfl⟩ := hp
  exact (chained_append.1 h).1

theorem reached_eq_own {rows : List ρ} (h : Chained previous own digest g rows) :
    rows.getLast?.map own = rows.getLast?.map fun r => some (digest r) := by
  induction rows using List.reverseRecOn with
  | nil => rfl
  | append_singleton rows r _ =>
      rw [List.getLast?_concat, Option.map_some, Option.map_some, (chained_concat.1 h).2.2]

/-- Two chains that got to the same digest say the same, row by row. -/
theorem chained_same {R : ρ → ρ → Prop}
    (hdigest : ∀ a b x y, previous a = some x → previous b = some y →
      digest a = digest b → R a b ∧ x = y)
    (hg : ∀ a, digest a ≠ g) {as : List ρ} :
    ∀ {bs : List ρ}, Chained previous own digest g as → Chained previous own digest g bs →
      reached digest g as = reached digest g bs → List.Forall₂ R as bs := by
  induction as using List.reverseRecOn with
  | nil =>
      intro bs _ _ h
      cases bs using List.reverseRecOn with
      | nil => exact .nil
      | append_singleton bs b =>
          rw [reached_concat, reached_nil] at h
          exact absurd h.symm (hg b)
  | append_singleton as a ih =>
      intro bs ha hb h
      cases bs using List.reverseRecOn with
      | nil =>
          rw [reached_concat, reached_nil] at h
          exact absurd h (hg a)
      | append_singleton bs b =>
          rw [reached_concat, reached_concat] at h
          obtain ⟨hrest, hlink, -⟩ := chained_concat.1 ha
          obtain ⟨hrest', hlink', -⟩ := chained_concat.1 hb
          obtain ⟨hR, hback⟩ := hdigest a b _ _ hlink hlink' h
          exact List.rel_append (ih hrest hrest' hback) (.cons hR .nil)

end CleanStack.Lib
