import CleanStack.Proofs.ScrubTokens

/-!
# Addresses in a cleaned text

The second pass is a map over the runs around the separators of addresses. A
mask stands for the run in front of an `@` and the beginning of the run behind
it; what is left of that run begins no domain.

When the next separator is an `@` as well, and a domain stands behind it, then
mask and domain are an address again. Everywhere else no address is left. The
pass only takes characters out of a token, so it makes no query.
-/

namespace CleanStack.SentryScrub

open CleanStack.Kit CleanStack.Lib

/-! ## Domains -/

/-- The text begins with a domain. -/
def BeginsDomain (text : List Char) : Prop :=
  ∃ name label behind, text = name ++ '.' :: (label ++ behind) ∧ name ≠ [] ∧
    (∀ c ∈ name, isMailChar c = true) ∧ 2 ≤ label.length ∧ ∀ c ∈ label, isLetter c = true

theorem isLetter_toNat {c : Char} (h : isLetter c = true) : 65 ≤ c.toNat ∧ c.toNat ≤ 122 := by
  simp only [isLetter, Bool.or_eq_true, Bool.and_eq_true, decide_eq_true_eq, Char.le_def,
    UInt32.le_iff_toNat_le, Char.reduceVal, UInt32.reduceToNat] at h
  show 65 ≤ c.val.toNat ∧ c.val.toNat ≤ 122
  omega

theorem isMailChar_letter {c : Char} (h : isLetter c = true) : isMailChar c = true := by
  obtain ⟨hlow, hhigh⟩ := isLetter_toNat h
  have hspace := isJsSpace_printable (show 33 ≤ c.toNat ∧ c.toNat ≤ 126 by omega)
  have hends : ∀ x ∈ "@<>()\",;:".toList, x.toNat < 65 := by
    have hall : ("@<>()\",;:".toList.all fun x => x.toNat < 65) = true := by decide
    exact fun x hx => of_decide_eq_true (List.all_eq_true.1 hall x hx)
  have hmem : c ∉ "@<>()\",;:".toList := fun hc => by
    have := hends c hc
    omega
  have hquote : c.toNat ≠ 39 := by omega
  simp only [isMailChar, hspace, List.contains_eq_mem, decide_eq_false hmem, Bool.not_false,
    Bool.true_and, ne_eq, hquote, not_false_eq_true, decide_true]

theorem afterLabel_suffix {cs l : List Char} (h : afterLabel (l ++ cs) = none) :
    afterLabel cs = none := by
  induction l with
  | nil => exact h
  | cons c l ih =>
      rw [List.cons_append, afterLabel] at h
      split at h
      · cases h
      · next hnone => exact ih hnone

theorem afterLabel_some {cs tail : List Char} (h : afterLabel cs = some tail) :
    afterLabel tail = none ∧ ∃ name label, cs = name ++ '.' :: (label ++ tail) ∧
      2 ≤ label.length ∧ ∀ c ∈ label, isLetter c = true := by
  induction cs with
  | nil => cases h
  | cons c cs ih =>
      rw [afterLabel] at h
      split at h
      · next tail' htail =>
        cases h
        obtain ⟨hnone, name, label, rfl, hlen, hletters⟩ := ih htail
        exact ⟨hnone, c :: name, label, rfl, hlen, hletters⟩
      · next hnone =>
        split at h
        · next hlabel =>
          cases h
          simp only [Bool.and_eq_true, decide_eq_true_eq] at hlabel
          obtain ⟨rfl, hlen⟩ := hlabel
          refine ⟨?_, [], cs.takeWhile isLetter, ?_, hlen, fun c hc => List.mem_takeWhile_imp hc⟩
          · refine afterLabel_suffix (l := cs.takeWhile isLetter) ?_
            rw [List.takeWhile_append_dropWhile]
            exact hnone
          · rw [List.takeWhile_append_dropWhile]
            rfl
        · cases h

theorem afterLabel_isSome (name : List Char) {label behind : List Char}
    (hlen : 2 ≤ label.length) (hletters : ∀ c ∈ label, isLetter c = true) :
    (afterLabel (name ++ '.' :: (label ++ behind))).isSome = true := by
  induction name with
  | nil =>
      rw [List.nil_append, afterLabel]
      split
      · rfl
      · rw [if_pos]
        · rfl
        · have htake : (label ++ behind).takeWhile isLetter = label ++ behind.takeWhile isLetter :=
            List.takeWhile_append_of_pos hletters
          simp only [decide_true, Bool.true_and, decide_eq_true_eq, htake, List.length_append]
          omega
  | cons c name ih =>
      rw [List.cons_append, afterLabel]
      split
      · rfl
      · next hnone =>
        rw [hnone] at ih
        cases ih

theorem isMailChar_dot : isMailChar '.' = true := by
  decide

/-- A run begins with a domain when the pattern finds one in it. -/
theorem beginsDomain_of_isSome {run : List Char} (hrun : ∀ c ∈ run, isMailChar c = true)
    (h : (afterDomain run).isSome = true) (text : List Char) : BeginsDomain (run ++ text) := by
  cases run with
  | nil => cases h
  | cons c cs =>
      obtain ⟨tail, htail⟩ := Option.isSome_iff_exists.1 h
      obtain ⟨-, name, label, rfl, hlen, hletters⟩ := afterLabel_some htail
      refine ⟨c :: name, label, tail ++ text, by simp, List.cons_ne_nil _ _, ?_, hlen, hletters⟩
      exact fun x hx => hrun x (by
        rcases List.mem_cons.1 hx with rfl | hx
        · exact List.mem_cons_self
        · exact List.mem_cons_of_mem _ (List.mem_append_left _ hx))

/-- A domain at the beginning of a text lies in its first run. -/
theorem isSome_of_beginsDomain {text : List Char} (h : BeginsDomain text) :
    (afterDomain (segments isMailChar text).1).isSome = true := by
  obtain ⟨name, label, behind, rfl, hne, hname, hlen, hletters⟩ := h
  have hrun : ∀ c ∈ name ++ '.' :: label, isMailChar c = true := by
    intro c hc
    simp only [List.mem_append, List.mem_cons] at hc
    rcases hc with hc | rfl | hc
    · exact hname c hc
    · exact isMailChar_dot
    · exact isMailChar_letter (hletters c hc)
  have htext : name ++ '.' :: (label ++ behind) = (name ++ '.' :: label) ++ behind := by simp
  rw [htext, segments_run hrun]
  cases name with
  | nil => exact absurd rfl hne
  | cons c name =>
      have hlabel : (afterLabel (name ++ '.' :: (label ++ (segments isMailChar behind).1))).isSome :=
        afterLabel_isSome name hlen hletters
      rw [← List.cons_append, ← List.append_assoc] at hlabel
      exact hlabel

/-! ## The pass over the runs -/

/-- What is left of the run behind the separator when an address ends in it. -/
def masked (run : List Char) (s : Char) (r : List Char) : Option (List Char) :=
  if run ≠ [] ∧ s = '@' then afterDomain r else none

def maskRuns : List Char → List (Char × List Char) → List Char × List (Char × List Char)
  | run, [] => (run, [])
  | run, [(s, r)] =>
      match masked run s r with
      | some tail => (EMAIL_MASK ++ tail, [])
      | none => (run, [(s, r)])
  | run, (s, r) :: (s', r') :: rest =>
      match masked run s r with
      | some tail =>
          (EMAIL_MASK ++ tail, (s', (maskRuns r' rest).1) :: (maskRuns r' rest).2)
      | none =>
          (run, (s, (maskRuns r ((s', r') :: rest)).1) :: (maskRuns r ((s', r') :: rest)).2)

theorem email_behind (c : Char) (text : List Char) (hc : isMailChar c = true) :
    EMAIL (some c) text = none := by
  simp [EMAIL, hc]

/-- At the beginning of a run an address is matched when a domain stands behind
the `@`. -/
theorem email_run {prev : Option Char} (hprev : prev.any isMailChar = false) {c : Char}
    {run : List Char} {s : Char} {r : List Char} {rest : List (Char × List Char)}
    (h : Segmented isMailChar (c :: run) ((s, r) :: rest)) :
    EMAIL prev (joined (c :: run) ((s, r) :: rest)) =
      (masked (c :: run) s r).map fun tail =>
        (run.length + 1 + (r.length - tail.length), EMAIL_MASK) := by
  obtain ⟨htake, hdrop⟩ := takeWhile_joined (fun _ => id) h
  have hall : (c :: run).takeWhile isMailChar = c :: run := List.takeWhile_eq_self_iff.2 h.1
  have hnone : (c :: run).dropWhile isMailChar = [] := List.dropWhile_eq_nil_iff.2 h.1
  have hrun : r.takeWhile isMailChar = r := List.takeWhile_eq_self_iff.2 h.tail.1
  have hsep : joined [] ((s, r) :: rest) = s :: joined r rest := rfl
  rw [hall] at htake
  rw [hnone, if_pos rfl, hsep] at hdrop
  rw [EMAIL, if_neg (by simp [hprev]), htake, hdrop, masked]
  by_cases hs : s = '@'
  · subst hs
    rw [if_pos ⟨List.cons_ne_nil _ _, rfl⟩]
    show (afterDomain ((joined r rest).takeWhile isMailChar)).map (fun tail => (run.length + 1 +
      (((joined r rest).takeWhile isMailChar).length - tail.length), EMAIL_MASK)) = _
    rw [(takeWhile_joined (fun _ => id) h.tail).1, hrun]
  · rw [if_neg fun hboth => hs hboth.2]
    split
    · next heq =>
      obtain ⟨rfl, -⟩ := List.cons.inj heq
      exact absurd rfl hs
    · rfl

theorem masked_some {run : List Char} {s : Char} {r tail : List Char}
    (h : masked run s r = some tail) : run ≠ [] ∧ s = '@' ∧ afterLabel tail = none ∧
      ∃ domain last, r = domain ++ last :: tail ∧ isMailChar last = true := by
  rw [masked] at h
  split at h
  · next hboth =>
    cases r with
    | nil => cases h
    | cons c cs =>
        obtain ⟨hnone, name, label, rfl, hlen, hletters⟩ := afterLabel_some h
        refine ⟨hboth.1, hboth.2, hnone, ?_⟩
        obtain ⟨front, last, rfl⟩ : ∃ front last, label = front ++ [last] := by
          rcases List.eq_nil_or_concat label with rfl | ⟨front, last, heq⟩
          · simp at hlen
          · exact ⟨front, last, by rw [heq, List.concat_eq_append]⟩
        exact ⟨c :: (name ++ '.' :: front), last, by simp, isMailChar_letter (hletters last (by simp))⟩
  · cases h

/-- The walk from a separator on. -/
def fromSep (rest : List (Char × List Char)) : List Char :=
  rest.head?.elim [] fun x => x.1 :: replaceFrom EMAIL 0 (some x.1) (joined x.2 rest.tail)

theorem maskEmails_step {prev : Option Char} (hprev : prev.any isMailChar = false)
    {run : List Char} {s : Char} {r : List Char} {rest : List (Char × List Char)}
    (h : Segmented isMailChar run ((s, r) :: rest)) :
    replaceFrom EMAIL 0 prev (joined run ((s, r) :: rest)) =
      match masked run s r with
      | some tail => EMAIL_MASK ++ tail ++ fromSep rest
      | none => run ++ fromSep ((s, r) :: rest) := by
  cases run with
  | nil =>
      have hmasked : masked [] s r = none := if_neg fun hboth => hboth.1 rfl
      have hmatch : EMAIL prev (s :: joined r rest) = none := by
        rw [EMAIL, List.takeWhile_cons, h.sep]
        simp
      rw [hmasked]
      show replaceFrom EMAIL 0 prev (s :: joined r rest) = _
      rw [replaceFrom, hmatch]
      rfl
  | cons c run =>
      obtain ⟨hc, hrun⟩ := List.forall_mem_cons.1 h.1
      have hmatch := email_run hprev h
      have hjoined : joined (c :: run) ((s, r) :: rest) = c :: joined run ((s, r) :: rest) := rfl
      rw [hjoined] at hmatch
      rw [hjoined, replaceFrom, hmatch]
      cases hmasked : masked (c :: run) s r with
      | none =>
          rw [Option.map_none]
          dsimp only
          rw [replaceFrom_copy email_behind hc hrun]
          rfl
      | some tail =>
          obtain ⟨-, rfl, -, domain, last, rfl, hlast⟩ := masked_some hmasked
          have hsplit : joined run (('@', domain ++ last :: tail) :: rest) =
              (run ++ '@' :: (domain ++ [last])) ++ joined tail rest := by
            simp [joined]
          have hcount : run.length + 1 + ((domain ++ last :: tail).length - tail.length) =
              (run ++ '@' :: (domain ++ [last])).length := by
            simp only [List.length_append, List.length_cons, List.length_nil]
            omega
          have htail : ∀ b ∈ tail, isMailChar b = true := fun b hb =>
            h.tail.1 b (by simp [hb])
          have hend : (c :: (run ++ '@' :: (domain ++ [last]))).getLast (List.cons_ne_nil _ _) =
              last := by
            have hpassed : c :: (run ++ '@' :: (domain ++ [last])) =
                (c :: (run ++ '@' :: domain)) ++ [last] := by simp
            simp only [hpassed, List.getLast_concat]
          rw [Option.map_some]
          dsimp only
          rw [hcount, hsplit, replaceFrom_skip, hend, replaceFrom_copy email_behind hlast htail,
            List.append_assoc]
          rfl

theorem maskEmails_last (prev : Option Char) {run : List Char}
    (h : Segmented isMailChar run []) : replaceFrom EMAIL 0 prev (joined run []) = run := by
  cases run with
  | nil => rfl
  | cons c run =>
      obtain ⟨hc, hrun⟩ := List.forall_mem_cons.1 h.1
      have hnone : (c :: run).dropWhile isMailChar = [] := List.dropWhile_eq_nil_iff.2 h.1
      have hmatch : EMAIL prev (c :: joined run []) = none := by
        have hjoined : c :: joined run [] = c :: run := by simp [joined]
        rw [hjoined, EMAIL, hnone]
        split
        · rfl
        · split
          · next heq => cases heq
          · rfl
      show replaceFrom EMAIL 0 prev (c :: joined run []) = _
      rw [replaceFrom, hmatch]
      dsimp only
      rw [replaceFrom_copy email_behind hc hrun]
      simp

/-- The second pass, run by run. -/
theorem maskEmails_joined {run : List Char} {rest : List (Char × List Char)}
    (h : Segmented isMailChar run rest) :
    maskEmails (joined run rest) = joined (maskRuns run rest).1 (maskRuns run rest).2 := by
  suffices hwalk : ∀ prev : Option Char, prev.any isMailChar = false →
      replaceFrom EMAIL 0 prev (joined run rest) =
        joined (maskRuns run rest).1 (maskRuns run rest).2 from
    hwalk none rfl
  induction run, rest using maskRuns.induct with
  | case1 run =>
      intro prev hprev
      rw [maskEmails_last prev h]
      simp [maskRuns, joined]
  | case2 run s r tail hmasked =>
      intro prev hprev
      rw [maskEmails_step hprev h, maskRuns, hmasked]
      simp [fromSep, joined]
  | case3 run s r hmasked =>
      intro prev hprev
      rw [maskEmails_step hprev h, maskRuns, hmasked]
      dsimp only
      rw [joined_cons]
      show run ++ s :: replaceFrom EMAIL 0 (some s) (joined r []) = _
      rw [maskEmails_last (some s) h.tail]
      simp [joined]
  | case4 run s r s' r' rest tail hmasked ih =>
      intro prev hprev
      have hs : (some s').any isMailChar = false := by simp [h.tail.sep]
      rw [maskEmails_step hprev h, maskRuns, hmasked]
      dsimp only
      rw [joined_cons, ← ih h.tail.tail (some s') hs]
      rfl
  | case5 run s r s' r' rest hmasked ih =>
      intro prev hprev
      have hs : (some s).any isMailChar = false := by simp [h.sep]
      rw [maskEmails_step hprev h, maskRuns, hmasked]
      dsimp only
      rw [joined_cons, ← ih h.tail (some s) hs]
      rfl

/-! ## Addresses -/

/-- What stands before a match does not end inside a run. -/
def EndsOutside (before : List Char) : Prop := ∀ c ∈ before.getLast?, isMailChar c = false

/-- The text contains a match of the pattern. -/
def MatchesEmail (text : List Char) : Prop :=
  ∃ before user behind, text = before ++ (user ++ '@' :: behind) ∧ EndsOutside before ∧
    user ≠ [] ∧ (∀ c ∈ user, isMailChar c = true) ∧ BeginsDomain behind

/-- The text contains a match with a further domain behind its run and an `@`. -/
def Chained (text : List Char) : Prop :=
  ∃ before user run behind, text = before ++ (user ++ '@' :: (run ++ '@' :: behind)) ∧
    EndsOutside before ∧ user ≠ [] ∧ (∀ c ∈ user, isMailChar c = true) ∧
    (∀ c ∈ run, isMailChar c = true) ∧ BeginsDomain run ∧ BeginsDomain behind

/-- The same, among the runs. -/
def HasEmail : List Char → List (Char × List Char) → Prop
  | _, [] => False
  | run, (s, r) :: rest => (masked run s r).isSome = true ∨ HasEmail r rest

def HasChain : List Char → List (Char × List Char) → Prop
  | _, [] => False
  | run, (s, r) :: rest =>
      ((masked run s r).isSome = true ∧
        ∃ r' rest', rest = ('@', r') :: rest' ∧ (afterDomain r').isSome = true) ∨
      HasChain r rest

theorem masked_isSome {run : List Char} {s : Char} {r : List Char} :
    (masked run s r).isSome = true ↔ run ≠ [] ∧ s = '@' ∧ (afterDomain r).isSome = true := by
  rw [masked]
  split
  · next hboth => simp [hboth.1, hboth.2]
  · next hnot =>
    constructor
    · intro h
      cases h
    · exact fun h => absurd ⟨h.1, h.2.1⟩ hnot

theorem hasEmail_of_longer {c : Char} {run : List Char} {rest : List (Char × List Char)}
    (h : HasEmail run rest) : HasEmail (c :: run) rest := by
  cases rest with
  | nil => exact h
  | cons x rest =>
      obtain ⟨s, r⟩ := x
      rcases h with hmasked | h
      · have hparts := masked_isSome.1 hmasked
        exact .inl (masked_isSome.2 ⟨List.cons_ne_nil _ _, hparts.2⟩)
      · exact .inr h

/-- A match begins at the beginning of a run, and shows in the runs. -/
theorem hasEmail_of_matches {text : List Char} (h : MatchesEmail text) :
    HasEmail (segments isMailChar text).1 (segments isMailChar text).2 := by
  obtain ⟨before, user, behind, rfl, hends, hne, huser, hdomain⟩ := h
  induction before with
  | nil =>
      rw [List.nil_append, segments_run huser, segments_sep (by decide), List.append_nil]
      exact .inl (masked_isSome.2 ⟨hne, rfl, isSome_of_beginsDomain hdomain⟩)
  | cons c before ih =>
      rw [List.cons_append, segments]
      cases hc : isMailChar c with
      | false =>
          refine .inr (ih fun x hx => ?_)
          cases before with
          | nil => cases hx
          | cons b before => exact hends x (by rwa [List.getLast?_cons_cons])
      | true =>
          cases before with
          | nil =>
              have := hends c rfl
              rw [hc] at this
              cases this
          | cons b before =>
              exact hasEmail_of_longer (ih fun x hx => hends x (by rwa [List.getLast?_cons_cons]))

theorem endsOutside_append {run before : List Char} {s : Char} (hs : isMailChar s = false)
    (h : EndsOutside before) : EndsOutside (run ++ s :: before) := by
  intro c hc
  cases before with
  | nil =>
      have hlast : (run ++ [s]).getLast? = some s := by simp
      rw [hlast] at hc
      obtain rfl := Option.some.inj hc
      exact hs
  | cons b before =>
      refine h c ?_
      rwa [List.getLast?_append_cons, List.getLast?_cons_cons] at hc

theorem endsOutside_nil : EndsOutside [] := by
  intro c hc
  cases hc

theorem matches_of_hasEmail {run : List Char} {rest : List (Char × List Char)}
    (hseg : Segmented isMailChar run rest) (h : HasEmail run rest) :
    MatchesEmail (joined run rest) := by
  induction rest generalizing run with
  | nil => exact absurd h id
  | cons x rest ih =>
      obtain ⟨s, r⟩ := x
      rcases h with hmasked | h
      · obtain ⟨hne, rfl, hdomain⟩ := masked_isSome.1 hmasked
        refine ⟨[], run, joined r rest, ?_, endsOutside_nil, hne, hseg.1,
          beginsDomain_of_isSome hseg.tail.1 hdomain _⟩
        rw [joined_cons, List.nil_append]
      · obtain ⟨before, user, behind, heq, hends, hrest⟩ := ih hseg.tail h
        refine ⟨run ++ s :: before, user, behind, ?_, endsOutside_append hseg.sep hends, hrest⟩
        rw [joined_cons, heq]
        simp

theorem chained_of_hasChain {run : List Char} {rest : List (Char × List Char)}
    (hseg : Segmented isMailChar run rest) (h : HasChain run rest) : Chained (joined run rest) := by
  induction rest generalizing run with
  | nil => exact absurd h id
  | cons x rest ih =>
      obtain ⟨s, r⟩ := x
      rcases h with ⟨hmasked, r', rest', rfl, hdomain'⟩ | h
      · obtain ⟨hne, rfl, hdomain⟩ := masked_isSome.1 hmasked
        refine ⟨[], run, r, joined r' rest', ?_, endsOutside_nil, hne, hseg.1, hseg.tail.1, ?_,
          beginsDomain_of_isSome hseg.tail.tail.1 hdomain' _⟩
        · rw [joined_cons, joined_cons, List.nil_append]
        · simpa using beginsDomain_of_isSome hseg.tail.1 hdomain []
      · obtain ⟨before, user, run', behind, heq, hends, hrest⟩ := ih hseg.tail h
        refine ⟨run ++ s :: before, user, run', behind, ?_, endsOutside_append hseg.sep hends,
          hrest⟩
        rw [joined_cons, heq]
        simp

/-! ## What the pass leaves -/

/-- A mask and what is left behind it begin no domain. -/
theorem afterDomain_mask {tail : List Char} (h : afterLabel tail = none) :
    afterDomain (EMAIL_MASK ++ tail) = none := by
  show afterLabel ('e' :: 'm' :: 'a' :: 'i' :: 'l' :: ']' :: tail) = none
  have hstep : ∀ c cs, c ≠ '.' → afterLabel cs = none → afterLabel (c :: cs) = none := by
    intro c cs hc hcs
    rw [afterLabel, hcs]
    simp [hc]
  exact hstep _ _ (by decide) (hstep _ _ (by decide) (hstep _ _ (by decide) (hstep _ _ (by decide)
    (hstep _ _ (by decide) (hstep _ _ (by decide) h)))))

theorem maskRuns_head {run : List Char} {rest : List (Char × List Char)} :
    (maskRuns run rest).1 = run ∨
      ∃ tail, (maskRuns run rest).1 = EMAIL_MASK ++ tail ∧ afterLabel tail = none := by
  induction run, rest using maskRuns.induct with
  | case1 run => exact .inl rfl
  | case2 run s r tail hmasked =>
      rw [maskRuns, hmasked]
      exact .inr ⟨tail, rfl, (masked_some hmasked).2.2.1⟩
  | case3 run s r hmasked =>
      rw [maskRuns, hmasked]
      exact .inl rfl
  | case4 run s r s' r' rest tail hmasked _ =>
      rw [maskRuns, hmasked]
      exact .inr ⟨tail, rfl, (masked_some hmasked).2.2.1⟩
  | case5 run s r s' r' rest hmasked _ =>
      rw [maskRuns, hmasked]
      exact .inl rfl

theorem afterDomain_head {run : List Char} {rest : List (Char × List Char)}
    (h : (afterDomain (maskRuns run rest).1).isSome = true) : (afterDomain run).isSome = true := by
  rcases @maskRuns_head run rest with heq | ⟨tail, heq, hnone⟩
  · rwa [heq] at h
  · rw [heq, afterDomain_mask hnone] at h
    cases h

/-- Without a chain no address is left among the runs. -/
theorem not_hasEmail_maskRuns {run : List Char} {rest : List (Char × List Char)}
    (h : ¬HasChain run rest) : ¬HasEmail (maskRuns run rest).1 (maskRuns run rest).2 := by
  induction run, rest using maskRuns.induct with
  | case1 run => exact id
  | case2 run s r tail hmasked =>
      rw [maskRuns, hmasked]
      exact id
  | case3 run s r hmasked =>
      rw [maskRuns, hmasked]
      rintro (hsome | hrest)
      · rw [hmasked] at hsome
        cases hsome
      · exact hrest
  | case4 run s r s' r' rest tail hmasked ih =>
      rw [maskRuns, hmasked]
      rintro (hsome | hrest)
      · obtain ⟨-, rfl, hdomain⟩ := masked_isSome.1 hsome
        exact h (.inl ⟨by rw [hmasked]; rfl, r', rest, rfl, afterDomain_head hdomain⟩)
      · exact ih (fun hchain => h (.inr (.inr hchain))) hrest
  | case5 run s r s' r' rest hmasked ih =>
      rw [maskRuns, hmasked]
      rintro (hsome | hrest)
      · obtain ⟨hne, rfl, hdomain⟩ := masked_isSome.1 hsome
        have := masked_isSome.2 ⟨hne, rfl, afterDomain_head hdomain⟩
        rw [hmasked] at this
        cases this
      · exact ih (fun hchain => h (.inr hchain)) hrest

theorem maskRuns_of_not_hasEmail {run : List Char} {rest : List (Char × List Char)}
    (h : ¬HasEmail run rest) : maskRuns run rest = (run, rest) := by
  induction run, rest using maskRuns.induct with
  | case1 run => rfl
  | case2 run s r tail hmasked => exact absurd (.inl (by rw [hmasked]; rfl)) h
  | case3 run s r hmasked => rw [maskRuns, hmasked]
  | case4 run s r s' r' rest tail hmasked _ => exact absurd (.inl (by rw [hmasked]; rfl)) h
  | case5 run s r s' r' rest hmasked ih =>
      rw [maskRuns, hmasked, ih fun hrest => h (.inr hrest)]

theorem masked_kind {run : List Char} {s : Char} {r tail : List Char}
    (h : masked run s r = some tail) (hr : ∀ c ∈ r, isMailChar c = true) :
    ∀ c ∈ EMAIL_MASK ++ tail, isMailChar c = true := by
  have hmask : ∀ c ∈ EMAIL_MASK, isMailChar c = true := List.all_eq_true.1 (by decide)
  obtain ⟨-, -, -, domain, last, rfl, -⟩ := masked_some h
  intro c hc
  rcases List.mem_append.1 hc with hc | hc
  · exact hmask c hc
  · exact hr c (by simp [hc])

theorem segmented_maskRuns {run : List Char} {rest : List (Char × List Char)}
    (h : Segmented isMailChar run rest) :
    Segmented isMailChar (maskRuns run rest).1 (maskRuns run rest).2 := by
  induction run, rest using maskRuns.induct with
  | case1 run => exact h
  | case2 run s r tail hmasked =>
      rw [maskRuns, hmasked]
      exact ⟨masked_kind hmasked h.tail.1, fun x hx => absurd hx List.not_mem_nil⟩
  | case3 run s r hmasked =>
      rw [maskRuns, hmasked]
      exact h
  | case4 run s r s' r' rest tail hmasked ih =>
      rw [maskRuns, hmasked]
      exact .cons (masked_kind hmasked h.tail.1) h.tail.sep (ih h.tail.tail)
  | case5 run s r s' r' rest hmasked ih =>
      rw [maskRuns, hmasked]
      exact .cons h.1 h.sep (ih h.tail)

theorem isTokenChar_of_mail {c : Char} (h : isMailChar c = true) : isTokenChar c = true := by
  simp only [isMailChar, Bool.and_eq_true] at h
  exact h.1.1

/-- An address is replaced as a factor of one token. -/
theorem rewrites_mask {run : List Char} {s : Char} {r tail : List Char}
    (h : masked run s r = some tail) (hrun : ∀ c ∈ run, isMailChar c = true)
    (hr : ∀ c ∈ r, isMailChar c = true) {text out : List Char}
    (hrest : Rewrites isTokenChar EMAIL_MASK text out) :
    Rewrites isTokenChar EMAIL_MASK (run ++ s :: (r ++ text)) (EMAIL_MASK ++ (tail ++ out)) := by
  obtain ⟨-, rfl, -, domain, last, rfl, -⟩ := masked_some h
  have hsplit : run ++ '@' :: (domain ++ last :: tail ++ text) =
      (run ++ '@' :: (domain ++ [last])) ++ (tail ++ text) := by simp
  rw [hsplit]
  refine .mark _ (fun c hc => ?_) (hrest.append_keep tail)
  simp only [List.mem_append, List.mem_cons, List.not_mem_nil, or_false] at hc
  rcases hc with hc | rfl | hc | rfl
  · exact isTokenChar_of_mail (hrun c hc)
  · decide
  · exact isTokenChar_of_mail (hr c (by simp [hc]))
  · exact isTokenChar_of_mail (hr c (by simp))

theorem rewrites_maskRuns {run : List Char} {rest : List (Char × List Char)}
    (h : Segmented isMailChar run rest) :
    Rewrites isTokenChar EMAIL_MASK (joined run rest)
      (joined (maskRuns run rest).1 (maskRuns run rest).2) := by
  induction run, rest using maskRuns.induct with
  | case1 run => exact .refl _
  | case2 run s r tail hmasked =>
      rw [maskRuns, hmasked]
      have := rewrites_mask hmasked h.1 h.tail.1 .nil
      simpa [joined] using this
  | case3 run s r hmasked =>
      rw [maskRuns, hmasked]
      exact .refl _
  | case4 run s r s' r' rest tail hmasked ih =>
      have := rewrites_mask hmasked h.1 h.tail.1 ((ih h.tail.tail).keep s')
      rw [maskRuns, hmasked, joined_cons, joined_cons]
      dsimp only
      rw [joined_cons, List.append_assoc]
      exact this
  | case5 run s r s' r' rest hmasked ih =>
      rw [maskRuns, hmasked, joined_cons]
      dsimp only
      rw [joined_cons]
      exact ((ih h.tail).keep s).append_keep run

theorem rewrites_maskEmails (text : List Char) :
    Rewrites isTokenChar EMAIL_MASK text (maskEmails text) := by
  have hseg := segmented_segments isMailChar text
  have hpass := maskEmails_joined hseg
  have hrewrites := rewrites_maskRuns hseg
  rw [joined_segments] at hpass hrewrites
  rwa [hpass]

theorem not_matches_maskEmails {text : List Char} (h : ¬Chained text) :
    ¬MatchesEmail (maskEmails text) := by
  have hseg := segmented_segments isMailChar text
  have hpass := maskEmails_joined hseg
  have hchain : ¬HasChain (segments isMailChar text).1 (segments isMailChar text).2 := by
    intro hchain
    have := chained_of_hasChain hseg hchain
    rw [joined_segments] at this
    exact h this
  rw [joined_segments] at hpass
  intro hmatches
  have hfound := hasEmail_of_matches hmatches
  rw [hpass, segments_joined (segmented_maskRuns hseg)] at hfound
  exact not_hasEmail_maskRuns hchain hfound

theorem maskEmails_of_not_matches {text : List Char} (h : ¬MatchesEmail text) :
    maskEmails text = text := by
  have hseg := segmented_segments isMailChar text
  have hpass := maskEmails_joined hseg
  have hnone : ¬HasEmail (segments isMailChar text).1 (segments isMailChar text).2 := by
    intro hsome
    have := matches_of_hasEmail hseg hsome
    rw [joined_segments] at this
    exact h this
  rwa [maskRuns_of_not_hasEmail hnone, joined_segments] at hpass

/-- The signs that tell a query are in no mask. -/
theorem tellTale_not_mem {x y : Char} (h : TellTale x y) : x ∉ EMAIL_MASK ∧ y ∉ EMAIL_MASK := by
  have hstart : ∀ c, isQueryStart c = true → c ∉ EMAIL_MASK := by
    intro c hc
    have hcases : c = '?' ∨ c = '#' := by simpa [isQueryStart] using hc
    rcases hcases with rfl | rfl
    · decide
    · decide
  rcases h with ⟨hx, rfl | rfl⟩ | ⟨rfl, hy⟩
  · exact ⟨hstart x hx, by decide⟩
  · exact ⟨hstart x hx, by decide⟩
  · exact ⟨by decide, hstart y hy⟩

theorem not_hasQuery_maskEmails {text : List Char} (h : ¬HasQuery text) :
    ¬HasQuery (maskEmails text) := by
  intro hquery
  obtain ⟨x, y, htell, hpair⟩ := exists_pair_of_hasQuery hquery
  have hnot := tellTale_not_mem htell
  exact h (hasQuery_of_pair htell ((rewrites_maskEmails text).pair_of hnot.1 hnot.2 hpair))

/-! ## The parameters of a failed query -/

theorem cutAt_begins (marker text : List Char) : cutAt marker text <+: text := by
  induction text with
  | nil => exact List.prefix_rfl
  | cons c text ih =>
      rw [cutAt]
      split
      · exact List.nil_prefix
      · exact List.cons_prefix_cons.2 ⟨rfl, ih⟩

theorem not_infix_cutAt {marker : List Char} (hne : marker ≠ []) (text : List Char) :
    ¬marker <:+: cutAt marker text := by
  induction text with
  | nil => exact fun h => hne (List.infix_nil.1 h)
  | cons c text ih =>
      rw [cutAt]
      split
      · exact fun h => hne (List.infix_nil.1 h)
      · next hprefix =>
        intro h
        rcases List.infix_cons_iff.1 h with hpre | hin
        · refine hprefix (List.isPrefixOf_iff_prefix.2 (hpre.trans ?_))
          exact List.cons_prefix_cons.2 ⟨rfl, cutAt_begins marker text⟩
        · exact ih hin

theorem cutAt_of_not_infix {marker text : List Char} (h : ¬marker <:+: text) :
    cutAt marker text = text := by
  induction text with
  | nil => rfl
  | cons c text ih =>
      rw [cutAt, if_neg, ih fun hin => h (hin.trans (List.suffix_cons _ _).isInfix)]
      exact fun hpre => h (List.isPrefixOf_iff_prefix.1 hpre).isInfix

theorem params_kind : isTokenChar '\n' = false ∧ ∀ c ∈ "params:".toList, isTokenChar c = true :=
  ⟨by decide, List.all_eq_true.1 (by decide)⟩

theorem not_params_dropQueries {text : List Char} (h : ¬QUERY_PARAMS_MARKER <:+: text) :
    ¬QUERY_PARAMS_MARKER <:+: dropQueries text := by
  have hseg := segmented_segments isTokenChar text
  have hpass := dropQueries_joined hseg
  rw [joined_segments] at hpass
  rw [hpass, QUERY_PARAMS_MARKER,
    infix_joined params_kind.1 params_kind.2 (segmented_dropToken hseg)]
  rintro ⟨r, hr, hpre⟩
  obtain ⟨x, hx, heq⟩ := List.mem_map.1 hr
  obtain ⟨hs, rfl⟩ := Prod.mk.inj heq
  have hbefore := (dropToken_spec (hseg.2 x hx).2).1
  refine h ?_
  rw [← joined_segments isTokenChar text, QUERY_PARAMS_MARKER,
    infix_joined params_kind.1 params_kind.2 hseg]
  exact ⟨x.2, hs ▸ hx, hpre.trans hbefore⟩

theorem not_params_maskEmails {text : List Char} (h : ¬QUERY_PARAMS_MARKER <:+: text) :
    ¬QUERY_PARAMS_MARKER <:+: maskEmails text := by
  have hmask : EMAIL_MASK = '[' :: "email]".toList := rfl
  have hrewrites := rewrites_maskEmails text
  rw [hmask] at hrewrites
  exact fun hin => h (hrewrites.infix_of (by decide) (by decide) hin)

/-! ## Cleaned texts -/

/-- What is left of a text for the second pass. -/
def withoutQueries (text : String) : List Char :=
  dropQueries (cutAt QUERY_PARAMS_MARKER text.toList)

theorem scrubText_toList (text : String) :
    (scrubText text).toList = maskEmails (withoutQueries text) :=
  String.toList_ofList

theorem scrubText_query (text : String) : ¬HasQuery (scrubText text).toList := by
  rw [scrubText_toList]
  exact not_hasQuery_maskEmails (not_hasQuery_dropQueries _)

theorem scrubText_email {text : String} (h : ¬Chained (withoutQueries text)) :
    ¬MatchesEmail (scrubText text).toList := by
  rw [scrubText_toList]
  exact not_matches_maskEmails h

theorem scrubText_idem {text : String} (h : ¬Chained (withoutQueries text)) :
    scrubText (scrubText text) = scrubText text := by
  have hparams : ¬QUERY_PARAMS_MARKER <:+: (scrubText text).toList := by
    rw [scrubText_toList]
    exact not_params_maskEmails
      (not_params_dropQueries (not_infix_cutAt (List.cons_ne_nil _ _) _))
  have hsame := cutAt_of_not_infix hparams
  rw [scrubText.eq_1 (scrubText text), hsame, dropQueries_of_not_hasQuery (scrubText_query text),
    maskEmails_of_not_matches (scrubText_email h), String.ofList_toList]

end CleanStack.SentryScrub
