import CleanStack.Lib.Segments

/-!
# Replacing every match

A global replacement walks a text from the left. At each place a matcher is
asked, with the symbol before the place, how many symbols match there and what
to write for them; the walk goes on behind the match, or by one symbol.
-/

namespace CleanStack.Lib

variable {α : Type}

/-- `find` gives one less than the number of symbols that match. The first
argument counts the symbols of the last match that are still to be passed. -/
def replaceFrom (find : Option α → List α → Option (Nat × List α)) :
    Nat → Option α → List α → List α
  | _, _, [] => []
  | n + 1, _, a :: text => replaceFrom find n (some a) text
  | 0, prev, a :: text =>
      match find prev (a :: text) with
      | some (n, out) => out ++ replaceFrom find n (some a) text
      | none => a :: replaceFrom find 0 (some a) text

def replaceAll (find : Option α → List α → Option (Nat × List α)) (text : List α) : List α :=
  replaceFrom find 0 none text

/-- `out` is the text with some factors replaced by the marker; only symbols of
the kind were replaced. -/
inductive Rewrites (inner : α → Bool) (marker : List α) : List α → List α → Prop
  | nil : Rewrites inner marker [] []
  | keep (a : α) {text out : List α} (h : Rewrites inner marker text out) :
      Rewrites inner marker (a :: text) (a :: out)
  | mark (factor : List α) {text out : List α} (hinner : ∀ a ∈ factor, inner a = true)
      (h : Rewrites inner marker text out) :
      Rewrites inner marker (factor ++ text) (marker ++ out)

section Walk

variable {find : Option α → List α → Option (Nat × List α)} {p : α → Bool}

/-- The symbols of a match are passed. -/
theorem replaceFrom_skip (passed rest : List α) {a : α} :
    replaceFrom find passed.length (some a) (passed ++ rest) =
      replaceFrom find 0 (some ((a :: passed).getLast (List.cons_ne_nil _ _))) rest := by
  induction passed generalizing a with
  | nil => cases rest <;> rfl
  | cons b passed ih =>
      rw [List.length_cons, List.cons_append, replaceFrom, ih, List.getLast_cons_cons]

/-- Inside a run nothing matches that has to begin at one. -/
theorem replaceFrom_run (hfind : ∀ a text, p a = true → find (some a) text = none) {a : α}
    (ha : p a = true) (run : List α) (hrun : ∀ b ∈ run, p b = true) (rest : List (α × List α)) :
    replaceFrom find 0 (some a) (joined run rest) =
      run ++ replaceFrom find 0 (some ((a :: run).getLast (List.cons_ne_nil _ _)))
        (joined [] rest) := by
  induction run generalizing a with
  | nil => rfl
  | cons b run ih =>
      obtain ⟨hb, hrun⟩ := List.forall_mem_cons.1 hrun
      show replaceFrom find 0 (some a) (b :: joined run rest) = _
      rw [replaceFrom, hfind a _ ha, ih hb hrun, List.getLast_cons_cons]
      rfl

/-- Behind a run comes the end or a separator, and then the next run. -/
theorem replaceFrom_behind (hfind : ∀ a text, p a = true → find (some a) text = none) {a : α}
    (ha : p a = true) (rest : List (α × List α)) :
    replaceFrom find 0 (some a) (joined [] rest) =
      rest.head?.elim [] fun x => x.1 :: replaceFrom find 0 (some x.1) (joined x.2 rest.tail) := by
  cases rest with
  | nil => rfl
  | cons x rest =>
      obtain ⟨s, r⟩ := x
      show replaceFrom find 0 (some a) (s :: joined r rest) = _
      rw [replaceFrom, hfind a _ ha]
      rfl

theorem getLast_kind {a : α} (ha : p a = true) {run : List α} (hrun : ∀ b ∈ run, p b = true) :
    p ((a :: run).getLast (List.cons_ne_nil _ _)) = true :=
  (List.forall_mem_cons.2 ⟨ha, hrun⟩ : ∀ b ∈ a :: run, p b = true) _ (List.getLast_mem _)

/-- A run that has begun is copied, and the walk goes on with the next one. -/
theorem replaceFrom_copy (hfind : ∀ a text, p a = true → find (some a) text = none) {a : α}
    (ha : p a = true) {run : List α} (hrun : ∀ b ∈ run, p b = true) (rest : List (α × List α)) :
    replaceFrom find 0 (some a) (joined run rest) =
      run ++ rest.head?.elim [] fun x =>
        x.1 :: replaceFrom find 0 (some x.1) (joined x.2 rest.tail) := by
  rw [replaceFrom_run hfind ha run hrun, replaceFrom_behind hfind (getLast_kind ha hrun)]

end Walk

/-! ## Rewritten texts -/

section Rewritten

variable {inner : α → Bool} {marker text out : List α}

theorem Rewrites.append_keep (kept : List α) (h : Rewrites inner marker text out) :
    Rewrites inner marker (kept ++ text) (kept ++ out) := by
  induction kept with
  | nil => exact h
  | cons a kept ih => exact ih.keep a

theorem Rewrites.refl (text : List α) : Rewrites inner marker text text := by
  have := Rewrites.append_keep text (@Rewrites.nil _ inner marker)
  rwa [List.append_nil] at this

theorem Rewrites.mem_of (h : Rewrites inner marker text out) {a : α} (ha : a ∈ out) :
    a ∈ marker ∨ a ∈ text := by
  induction h with
  | nil => exact .inr ha
  | keep b _ ih =>
      rcases List.mem_cons.1 ha with rfl | ha
      · exact .inr List.mem_cons_self
      · exact (ih ha).imp_right (List.mem_cons_of_mem _)
  | mark factor _ _ ih =>
      rcases List.mem_append.1 ha with ha | ha
      · exact .inl ha
      · exact (ih ha).imp_right (List.mem_append_right _)

/-- A part that has not the marker's first symbol in it was there before. -/
theorem Rewrites.prefix_of {m : α} {ms part : List α} (h : Rewrites inner (m :: ms) text out)
    (hm : m ∉ part) (hpre : part <+: out) : part <+: text := by
  induction h generalizing part with
  | nil => exact hpre
  | keep a _ ih =>
      cases part with
      | nil => exact List.nil_prefix
      | cons b part =>
          obtain ⟨rfl, hrest⟩ := List.cons_prefix_cons.1 hpre
          exact List.cons_prefix_cons.2
            ⟨rfl, ih (fun hmem => hm (List.mem_cons_of_mem _ hmem)) hrest⟩
  | mark factor _ _ _ =>
      cases part with
      | nil => exact List.nil_prefix
      | cons b part =>
          obtain ⟨rfl, -⟩ := List.cons_prefix_cons.1 hpre
          exact absurd List.mem_cons_self hm

/-- The same anywhere, when the part does not begin inside a marker either. -/
theorem Rewrites.infix_of {m a : α} {ms part : List α} (h : Rewrites inner (m :: ms) text out)
    (hm : m ∉ a :: part) (ha : a ∉ m :: ms) (hin : a :: part <:+: out) : a :: part <:+: text := by
  induction h with
  | nil => exact hin
  | keep b h ih =>
      rcases List.infix_cons_iff.1 hin with hpre | hin
      · exact ((h.keep b).prefix_of hm hpre).isInfix
      · exact (ih hin).trans (List.suffix_cons _ _).isInfix
  | @mark factor text out _ _ ih =>
      have hskip : ∀ l : List α, a ∉ l → a :: part <:+: l ++ out → a :: part <:+: out := by
        intro l
        induction l with
        | nil => exact fun _ h => h
        | cons b l ihl =>
            intro hl hin
            rw [List.mem_cons, not_or] at hl
            rcases List.infix_cons_iff.1 hin with hpre | hin
            · exact absurd (List.cons_prefix_cons.1 hpre).1 hl.1
            · exact ihl hl.2 hin
      exact (ih (hskip _ ha hin)).trans (List.suffix_append _ _).isInfix

/-- The symbol follows, and only symbols of the kind stand before it. -/
def Reaches (inner : α → Bool) (y : α) (text : List α) : Prop :=
  ∃ mid behind, text = mid ++ y :: behind ∧ ∀ a ∈ mid, inner a = true

/-- The two symbols follow each other with only symbols of the kind between. -/
def PairIn (inner : α → Bool) (x y : α) (text : List α) : Prop :=
  ∃ before tail, text = before ++ x :: tail ∧ Reaches inner y tail

theorem append_eq_of_not_mem {l out before tail : List α} {x : α} (hx : x ∉ l)
    (h : l ++ out = before ++ x :: tail) : ∃ before', before = l ++ before' ∧
      out = before' ++ x :: tail := by
  rcases List.append_eq_append_iff.1 h with ⟨c, rfl, hc⟩ | ⟨c, rfl, hc⟩
  · exact ⟨c, rfl, hc⟩
  · cases c with
    | nil => exact ⟨[], by simp, by simpa using hc.symm⟩
    | cons b c =>
        obtain ⟨rfl, -⟩ := List.cons.inj hc
        exact absurd (List.mem_append_right before List.mem_cons_self) hx

theorem Rewrites.reaches_of {y : α} (h : Rewrites inner marker text out) (hy : y ∉ marker)
    (hout : Reaches inner y out) : Reaches inner y text := by
  induction h with
  | nil => exact hout
  | keep a _ ih =>
      obtain ⟨mid, behind, heq, hmid⟩ := hout
      cases mid with
      | nil =>
          obtain ⟨rfl, -⟩ := List.cons.inj heq
          exact ⟨[], _, rfl, hmid⟩
      | cons b mid =>
          obtain ⟨rfl, hrest⟩ := List.cons.inj heq
          obtain ⟨hb, hmid⟩ := List.forall_mem_cons.1 hmid
          obtain ⟨mid', behind', rfl, hmid'⟩ := ih ⟨mid, behind, hrest, hmid⟩
          exact ⟨_ :: mid', behind', rfl, List.forall_mem_cons.2 ⟨hb, hmid'⟩⟩
  | mark factor hfactor _ ih =>
      obtain ⟨mid, behind, heq, hmid⟩ := hout
      obtain ⟨mid, rfl, hrest⟩ := append_eq_of_not_mem hy heq
      obtain ⟨mid', behind', rfl, hmid'⟩ :=
        ih ⟨mid, behind, hrest, fun a ha => hmid a (List.mem_append_right _ ha)⟩
      refine ⟨factor ++ mid', behind', by simp, fun a ha => ?_⟩
      rcases List.mem_append.1 ha with ha | ha
      · exact hfactor a ha
      · exact hmid' a ha

/-- Two symbols that are in no marker were together before. -/
theorem Rewrites.pair_of {x y : α} (h : Rewrites inner marker text out) (hx : x ∉ marker)
    (hy : y ∉ marker) (hout : PairIn inner x y out) : PairIn inner x y text := by
  induction h with
  | nil => exact hout
  | keep a h ih =>
      obtain ⟨before, tail, heq, hreach⟩ := hout
      cases before with
      | nil =>
          obtain ⟨rfl, rfl⟩ := List.cons.inj heq
          exact ⟨[], _, rfl, h.reaches_of hy hreach⟩
      | cons b before =>
          obtain ⟨rfl, hrest⟩ := List.cons.inj heq
          obtain ⟨before', tail', rfl, hreach'⟩ := ih ⟨before, tail, hrest, hreach⟩
          exact ⟨_ :: before', tail', rfl, hreach'⟩
  | mark factor _ _ ih =>
      obtain ⟨before, tail, heq, hreach⟩ := hout
      obtain ⟨before, rfl, hrest⟩ := append_eq_of_not_mem hx heq
      obtain ⟨before', tail', rfl, hreach'⟩ := ih ⟨before, tail, hrest, hreach⟩
      exact ⟨factor ++ before', tail', by simp, hreach'⟩

end Rewritten

end CleanStack.Lib
