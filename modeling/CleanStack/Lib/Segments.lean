import Mathlib.Data.List.Infix
import Mathlib.Data.List.TakeWhile

/-!
# Runs and separators

A text is cut into runs of the symbols of one kind; every other symbol is a
separator and stands between two runs, which may be empty. A first run and a
list of separators, each with the run behind it, determine the text and are
determined by it.
-/

namespace CleanStack.Lib

variable {α : Type} {p : α → Bool}

def segments (p : α → Bool) : List α → List α × List (α × List α)
  | [] => ([], [])
  | a :: text =>
      let (run, rest) := segments p text
      if p a then (a :: run, rest) else ([], (a, run) :: rest)

def joined (run : List α) (rest : List (α × List α)) : List α :=
  run ++ rest.flatMap fun x => x.1 :: x.2

/-- Every run is of the kind, and no separator is. -/
def Segmented (p : α → Bool) (run : List α) (rest : List (α × List α)) : Prop :=
  (∀ a ∈ run, p a = true) ∧ ∀ x ∈ rest, p x.1 = false ∧ ∀ a ∈ x.2, p a = true

theorem joined_cons (run : List α) (s : α) (r : List α) (rest : List (α × List α)) :
    joined run ((s, r) :: rest) = run ++ s :: joined r rest := by
  simp [joined]

theorem Segmented.tail {run : List α} {s : α} {r : List α} {rest : List (α × List α)}
    (h : Segmented p run ((s, r) :: rest)) : Segmented p r rest :=
  ⟨(h.2 _ List.mem_cons_self).2, fun x hx => h.2 x (List.mem_cons_of_mem _ hx)⟩

theorem Segmented.sep {run : List α} {s : α} {r : List α} {rest : List (α × List α)}
    (h : Segmented p run ((s, r) :: rest)) : p s = false :=
  (h.2 _ List.mem_cons_self).1

theorem Segmented.cons {run : List α} {s : α} {r : List α} {rest : List (α × List α)}
    (hrun : ∀ a ∈ run, p a = true) (hs : p s = false) (h : Segmented p r rest) :
    Segmented p run ((s, r) :: rest) :=
  ⟨hrun, List.forall_mem_cons.2 ⟨⟨hs, h.1⟩, h.2⟩⟩

theorem segmented_segments (p : α → Bool) (text : List α) :
    Segmented p (segments p text).1 (segments p text).2 := by
  induction text with
  | nil => exact ⟨fun a h => absurd h List.not_mem_nil, fun x h => absurd h List.not_mem_nil⟩
  | cons a text ih =>
      rw [segments]
      cases ha : p a with
      | true => exact ⟨List.forall_mem_cons.2 ⟨ha, ih.1⟩, ih.2⟩
      | false => exact Segmented.cons (fun a h => absurd h List.not_mem_nil) ha ih

theorem joined_segments (p : α → Bool) (text : List α) :
    joined (segments p text).1 (segments p text).2 = text := by
  induction text with
  | nil => rfl
  | cons a text ih =>
      rw [segments]
      cases ha : p a with
      | true => exact congrArg (a :: ·) ih
      | false =>
          show joined [] ((a, (segments p text).1) :: (segments p text).2) = a :: text
          rw [joined_cons, ih, List.nil_append]

theorem segments_run {run : List α} (h : ∀ a ∈ run, p a = true) (text : List α) :
    segments p (run ++ text) = (run ++ (segments p text).1, (segments p text).2) := by
  induction run with
  | nil => rfl
  | cons a run ih =>
      obtain ⟨ha, hrun⟩ := List.forall_mem_cons.1 h
      rw [List.cons_append, segments, ih hrun, ha]
      rfl

theorem segments_sep {s : α} (hs : p s = false) (text : List α) :
    segments p (s :: text) = ([], (s, (segments p text).1) :: (segments p text).2) := by
  rw [segments, hs]
  rfl

theorem segments_joined {run : List α} {rest : List (α × List α)} (h : Segmented p run rest) :
    segments p (joined run rest) = (run, rest) := by
  induction rest generalizing run with
  | nil =>
      rw [joined, List.flatMap_nil, segments_run h.1]
      simp [segments]
  | cons x rest ih =>
      obtain ⟨s, r⟩ := x
      rw [joined_cons, segments_run h.1, segments_sep h.sep, ih h.tail, List.append_nil]

theorem head_dropWhile {q : α → Bool} {text behind : List α} {a : α}
    (h : text.dropWhile q = a :: behind) : q a = false := by
  induction text with
  | nil => cases h
  | cons b text ih =>
      rw [List.dropWhile_cons] at h
      split at h
      · exact ih h
      · next hb =>
        obtain ⟨rfl, -⟩ := List.cons.inj h
        exact Bool.eq_false_iff.2 hb

/-- Symbols of a narrower kind at the front of a text are those of its run. -/
theorem takeWhile_joined {q : α → Bool} (hq : ∀ a, p a = false → q a = false) {run : List α}
    {rest : List (α × List α)} (h : Segmented p run rest) :
    (joined run rest).takeWhile q = run.takeWhile q ∧
      (joined run rest).dropWhile q =
        if run.dropWhile q = [] then joined [] rest else joined (run.dropWhile q) rest := by
  have hhead : (joined [] rest).takeWhile q = [] ∧
      (joined [] rest).dropWhile q = joined [] rest := by
    cases rest with
    | nil => exact ⟨rfl, rfl⟩
    | cons x rest =>
        have hx := hq x.1 (h.2 x List.mem_cons_self).1
        have hjoined : joined [] (x :: rest) = x.1 :: joined x.2 rest := rfl
        rw [hjoined]
        simp [hx]
  have happend : ∀ run, joined run rest = run ++ joined [] rest := fun _ => rfl
  rw [happend]
  clear h
  induction run with
  | nil => simpa using hhead
  | cons c run ih =>
      rw [List.cons_append]
      cases hc : q c with
      | true =>
          simp only [List.takeWhile_cons, List.dropWhile_cons, hc, if_true, ih.1, ih.2, and_self]
      | false =>
          simp only [List.takeWhile_cons, List.dropWhile_cons, hc, Bool.false_eq_true, if_false,
            true_and]
          rw [if_neg (List.cons_ne_nil _ _)]
          rfl

/-- A text of the kind that begins at a run's start lies in that run. -/
theorem prefix_run {part run : List α} {rest : List (α × List α)}
    (hpart : ∀ a ∈ part, p a = true) (h : Segmented p run rest) (hpre : part <+: joined run rest) :
    part <+: run := by
  obtain ⟨after, hafter⟩ := hpre
  have hruns := congrArg (segments p) hafter
  rw [segments_run hpart, segments_joined h] at hruns
  exact ⟨_, congrArg Prod.fst hruns⟩

/-- A separator and what stands behind it up to the next one are found among the
segments. -/
theorem infix_joined {s : α} {part run : List α} {rest : List (α × List α)}
    (hs : p s = false) (hpart : ∀ a ∈ part, p a = true) (h : Segmented p run rest) :
    s :: part <:+: joined run rest ↔ ∃ r, (s, r) ∈ rest ∧ part <+: r := by
  induction rest generalizing run with
  | nil =>
      constructor
      · intro hin
        have hmem : s ∈ run := by simpa [joined] using hin.subset List.mem_cons_self
        rw [h.1 s hmem] at hs
        cases hs
      · rintro ⟨r, hr, -⟩
        cases hr
  | cons x rest ih =>
      obtain ⟨s', r'⟩ := x
      have hskip : s :: part <:+: joined run ((s', r') :: rest) ↔
          s :: part <:+: s' :: joined r' rest := by
        rw [joined_cons]
        have hrun := h.1
        clear h
        induction run with
        | nil => rw [List.nil_append]
        | cons a run ihrun =>
            obtain ⟨ha, hrun⟩ := List.forall_mem_cons.1 hrun
            rw [List.cons_append, List.infix_cons_iff]
            refine (or_iff_right fun hpre => ?_).trans (ihrun hrun)
            obtain ⟨heq, -⟩ := List.cons_prefix_cons.1 hpre
            rw [heq, ha] at hs
            cases hs
      rw [hskip, List.infix_cons_iff, ih h.tail, List.cons_prefix_cons]
      constructor
      · rintro (⟨rfl, hpre⟩ | ⟨r, hr, hpre⟩)
        · exact ⟨r', List.mem_cons_self, prefix_run hpart h.tail hpre⟩
        · exact ⟨r, List.mem_cons_of_mem _ hr, hpre⟩
      · rintro ⟨r, hr, hpre⟩
        rcases List.mem_cons.1 hr with heq | hr
        · obtain ⟨rfl, rfl⟩ := Prod.mk.inj heq
          exact .inl ⟨rfl, hpre.trans (List.prefix_append _ _)⟩
        · exact .inr ⟨r, hr, hpre⟩

theorem run_infix {run : List α} {rest : List (α × List α)} {r : List α}
    (h : r ∈ run :: rest.map Prod.snd) : r <:+: joined run rest := by
  induction rest generalizing run with
  | nil =>
      obtain rfl := List.mem_singleton.1 h
      exact (List.prefix_append _ _).isInfix
  | cons x rest ih =>
      obtain ⟨s, r'⟩ := x
      rcases List.mem_cons.1 h with rfl | h
      · exact (List.prefix_append _ _).isInfix
      · rw [joined_cons]
        exact (ih h).trans ((List.suffix_cons _ _).trans (List.suffix_append _ _)).isInfix

/-- A text of the kind lies in one run. -/
theorem infix_run {part run : List α} {rest : List (α × List α)} (hne : part ≠ [])
    (hpart : ∀ a ∈ part, p a = true) (h : Segmented p run rest)
    (hin : part <:+: joined run rest) : ∃ r ∈ run :: rest.map Prod.snd, part <:+: r := by
  induction rest generalizing run with
  | nil => exact ⟨run, List.mem_cons_self, by simpa [joined] using hin⟩
  | cons x rest ih =>
      obtain ⟨s, r⟩ := x
      have hrun := h.1
      induction run with
      | nil =>
          rw [joined_cons, List.nil_append] at hin
          rcases List.infix_cons_iff.1 hin with hpre | hin
          · obtain ⟨a, part, rfl⟩ := List.exists_cons_of_ne_nil hne
            obtain ⟨rfl, -⟩ := List.cons_prefix_cons.1 hpre
            have := hpart a List.mem_cons_self
            rw [h.sep] at this
            cases this
          · obtain ⟨r', hr', hin⟩ := ih h.tail hin
            exact ⟨r', List.mem_cons_of_mem _ hr', hin⟩
      | cons a run ihrun =>
          have h' : Segmented p run ((s, r) :: rest) :=
            ⟨fun b hb => hrun b (List.mem_cons_of_mem _ hb), h.2⟩
          rcases List.infix_cons_iff.1 hin with hpre | hin
          · exact ⟨a :: run, List.mem_cons_self, (prefix_run hpart h hpre).isInfix⟩
          · obtain ⟨r', hr', hfound⟩ := ihrun h' hin h'.1
            rcases List.mem_cons.1 hr' with rfl | hr'
            · exact ⟨a :: r', List.mem_cons_self, hfound.trans (List.suffix_cons _ _).isInfix⟩
            · exact ⟨r', List.mem_cons_of_mem _ hr', hfound⟩

end CleanStack.Lib
