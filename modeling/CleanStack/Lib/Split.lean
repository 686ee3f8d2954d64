import Mathlib.Data.List.Infix

/-!
# Splitting a text as it arrives

A text is split at every match of a separator, found from the left. When a match
does not depend on what comes after it, and one that is still incomplete at the end
of a text leaves no match behind its beginning, the pieces in front of the last are
settled: splitting the text with more behind it gives them again, and then the
pieces of the last one with more behind it.
-/

namespace CleanStack.Lib

variable {α : Type*}

/-- `m` gives how many symbols match at the beginning of a text. The number counts
the symbols of the last match that are still to be passed. -/
def splitFrom (m : List α → Nat) : Nat → List α → List α → List (List α)
  | _, piece, [] => [piece]
  | n + 1, piece, _ :: text => splitFrom m n piece text
  | 0, piece, a :: text =>
      match m (a :: text) with
      | 0 => splitFrom m 0 (piece ++ [a]) text
      | n + 1 => piece :: splitFrom m n [] text

def split (m : List α → Nat) (text : List α) : List (List α) := splitFrom m 0 [] text

structure Settled (m : List α → Nat) : Prop where
  le_length : ∀ x, m x ≤ x.length
  append : ∀ x y, m x ≠ 0 → m (x ++ y) = m x
  incomplete : ∀ x y, m x = 0 → m (x ++ y) ≠ 0 → ∀ s, s <:+ x → m s = 0

/-- No match begins in `x` with `rest` behind it. -/
def Quiet (m : List α → Nat) (x rest : List α) : Prop := ∀ s, s <:+ x → s ≠ [] → m (s ++ rest) = 0

variable {m : List α → Nat}

theorem Quiet.tail {a : α} {x rest : List α} (h : Quiet m (a :: x) rest) : Quiet m x rest :=
  fun s hs => h s (hs.trans (List.suffix_cons a x))

theorem splitFrom_quiet {x rest : List α} (h : Quiet m x rest) (piece : List α) :
    splitFrom m 0 piece (x ++ rest) = splitFrom m 0 (piece ++ x) rest := by
  induction x generalizing piece with
  | nil => rw [List.nil_append, List.append_nil]
  | cons a x ih =>
    have hnone : m (a :: (x ++ rest)) = 0 := h (a :: x) List.suffix_rfl (List.cons_ne_nil a x)
    rw [List.cons_append, splitFrom, hnone]
    show splitFrom m 0 (piece ++ [a]) (x ++ rest) = _
    rw [ih h.tail, List.append_assoc, List.singleton_append]

theorem splitFrom_pass (passed rest piece : List α) :
    splitFrom m passed.length piece (passed ++ rest) = splitFrom m 0 piece rest := by
  induction passed with
  | nil => rfl
  | cons a passed ih => exact ih

theorem split_match {x sep rest : List α} (h : Quiet m x (sep ++ rest)) (hsep : sep ≠ [])
    (hm : m (sep ++ rest) = sep.length) : split m (x ++ (sep ++ rest)) = x :: split m rest := by
  obtain ⟨a, passed, rfl⟩ := List.exists_cons_of_ne_nil hsep
  rw [split, splitFrom_quiet h, List.nil_append, List.cons_append, splitFrom]
  rw [List.cons_append, List.length_cons] at hm
  rw [hm]
  show x :: splitFrom m passed.length [] (passed ++ rest) = _
  rw [splitFrom_pass, split]

theorem split_none {x : List α} (hnone : ∀ s, s <:+ x → m s = 0) :
    split m x = [x] := by
  have hquiet : Quiet m x [] := fun s hs _ => by rw [List.append_nil]; exact hnone s hs
  rw [split, ← List.append_nil x, splitFrom_quiet hquiet, List.append_nil, List.nil_append,
    splitFrom]

/-- There is no match, or a first one. -/
theorem first_match (hm : Settled m) (x : List α) :
    (∀ s, s <:+ x → m s = 0) ∨
      ∃ p sep rest, x = p ++ (sep ++ rest) ∧ sep ≠ [] ∧ m (sep ++ rest) = sep.length ∧
        Quiet m p (sep ++ rest) := by
  induction x with
  | nil =>
    refine .inl fun s hs => ?_
    rw [List.suffix_nil.1 hs]
    exact Nat.le_zero.1 (hm.le_length [])
  | cons a x ih =>
    by_cases ha : m (a :: x) = 0
    · rcases ih with hnone | ⟨p, sep, rest, rfl, hsep, hmatch, hquiet⟩
      · refine .inl fun s hs => ?_
        rcases List.suffix_cons_iff.1 hs with rfl | hs
        · exact ha
        · exact hnone s hs
      · refine .inr ⟨a :: p, sep, rest, rfl, hsep, hmatch, fun s hs hne => ?_⟩
        rcases List.suffix_cons_iff.1 hs with rfl | hs
        · exact ha
        · exact hquiet s hs hne
    · refine .inr ⟨[], (a :: x).take (m (a :: x)), (a :: x).drop (m (a :: x)), ?_, ?_, ?_, ?_⟩
      · rw [List.nil_append, List.take_append_drop]
      · intro hnil
        rcases List.take_eq_nil_iff.1 hnil with hzero | hnil
        · exact ha hzero
        · cases hnil
      · rw [List.take_append_drop, List.length_take, Nat.min_eq_left (hm.le_length _)]
      · exact fun s hs hne => absurd (List.suffix_nil.1 hs) hne

theorem split_ne_nil (m : List α → Nat) (n : Nat) (piece text : List α) :
    splitFrom m n piece text ≠ [] := by
  induction text generalizing n piece with
  | nil => simp [splitFrom]
  | cons a text ih =>
    cases n with
    | succ n => exact ih n piece
    | zero =>
      rw [splitFrom]
      split
      · exact ih 0 _
      · exact List.cons_ne_nil _ _

/-- A piece with a match behind it is settled. -/
theorem Quiet.append (hm : Settled m) {p sep rest : List α} (h : Quiet m p (sep ++ rest))
    (hsep : sep ≠ []) (hmatch : m (sep ++ rest) = sep.length) (more : List α) :
    Quiet m p (sep ++ (rest ++ more)) := by
  intro s hs hne
  by_contra hlate
  have hzero := h s hs hne
  rw [← List.append_assoc, ← List.append_assoc, List.append_assoc s] at hlate
  have hnone := hm.incomplete _ _ hzero hlate (sep ++ rest) (List.suffix_append s _)
  rw [hmatch] at hnone
  exact hsep (List.length_eq_zero_iff.1 hnone)

theorem split_append (hm : Settled m) (x more : List α) :
    split m (x ++ more) =
      (split m x).dropLast ++ split m ((split m x).getLast (split_ne_nil m 0 [] x) ++ more) := by
  induction hn : x.length using Nat.strong_induction_on generalizing x with
  | _ n ih =>
    rcases first_match hm x with hnone | ⟨p, sep, rest, rfl, hsep, hmatch, hquiet⟩
    · have hone := split_none hnone
      simp only [hone, List.dropLast_singleton, List.getLast_singleton, List.nil_append]
    · have hshort : rest.length < n := by
        have hpos := List.length_pos_iff.2 hsep
        rw [← hn, List.length_append, List.length_append]
        omega
      have hlater : m (sep ++ (rest ++ more)) = sep.length := by
        rw [← List.append_assoc, hm.append _ _ ?_, hmatch]
        rw [hmatch]
        exact mt List.length_eq_zero_iff.1 hsep
      have hrest : split m rest ≠ [] := split_ne_nil m 0 [] rest
      have hsplit := split_match hquiet hsep hmatch
      rw [List.append_assoc, List.append_assoc,
        split_match (hquiet.append hm hsep hmatch more) hsep hlater, ih _ hshort rest rfl]
      simp only [hsplit, List.dropLast_cons_of_ne_nil hrest, List.getLast_cons hrest,
        List.cons_append]

end CleanStack.Lib
