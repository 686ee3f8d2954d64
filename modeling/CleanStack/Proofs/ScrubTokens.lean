import CleanStack.SentryScrub.ScrubText

/-!
# Queries in a cleaned text

The first pass is a map over the tokens of a text: one whose query would be
dropped keeps what stands before it, and has no query sign left. Whether a text
has such a token shows in two of its characters with no white space between, a
query sign and a slash or an equals sign.
-/

namespace CleanStack.SentryScrub

open CleanStack.Kit CleanStack.Lib

/-! ## The pass over the tokens -/

theorem queryInToken_behind (c : Char) (text : List Char) (hc : isTokenChar c = true) :
    QUERY_IN_TOKEN (some c) text = none := by
  simp [QUERY_IN_TOKEN, hc]

/-- A token without its query, when that looks like one. -/
def dropToken (token : List Char) : List Char :=
  match token.dropWhile beforeQueryChar with
  | [] => token
  | q :: rest => dropQuery token (token.takeWhile beforeQueryChar) (q :: rest)

theorem beforeQueryChar_sep {c : Char} (hc : isTokenChar c = false) : beforeQueryChar c = false := by
  simp [beforeQueryChar, hc]

theorem isQueryStart_of {c : Char} (hc : isTokenChar c = true) (hb : beforeQueryChar c = false) :
    isQueryStart c = true := by
  simpa [beforeQueryChar, hc] using hb

theorem isQueryStart_sep {c : Char} (hc : isTokenChar c = false) : isQueryStart c = false := by
  cases hq : isQueryStart c with
  | false => rfl
  | true =>
      have hcases : c = '?' ∨ c = '#' := by simpa [isQueryStart] using hq
      rcases hcases with rfl | rfl
      · exact absurd hc (by decide)
      · exact absurd hc (by decide)

/-- At the beginning of a token the pattern matches all of it or nothing. -/
theorem queryInToken_token {prev : Option Char} (hprev : prev.any isTokenChar = false)
    {c : Char} {run : List Char} {rest : List (Char × List Char)}
    (h : Segmented isTokenChar (c :: run) rest) :
    QUERY_IN_TOKEN prev (joined (c :: run) rest) =
      if (c :: run).dropWhile beforeQueryChar = [] then none
      else some (run.length, dropToken (c :: run)) := by
  obtain ⟨htake, hdrop⟩ := takeWhile_joined (fun _ => beforeQueryChar_sep) h
  rw [QUERY_IN_TOKEN, if_neg (by simp [hprev]), htake, hdrop, dropToken]
  cases hq : (c :: run).dropWhile beforeQueryChar with
  | nil =>
      rw [if_pos rfl, if_pos rfl]
      cases rest with
      | nil => rfl
      | cons x rest =>
          obtain ⟨s, r⟩ := x
          show (if isQueryStart s then _ else none) = none
          rw [isQueryStart_sep h.sep, if_neg Bool.false_ne_true]
  | cons q behind =>
      have hsplit := List.takeWhile_append_dropWhile (p := beforeQueryChar) (l := c :: run)
      rw [hq] at hsplit
      have hmem : ∀ b ∈ q :: behind, isTokenChar b = true := fun b hb =>
        h.1 b (by rw [← hsplit]; exact List.mem_append_right _ hb)
      have hstart : isQueryStart q = true :=
        isQueryStart_of (hmem q List.mem_cons_self) (head_dropWhile hq)
      have hbehind : Segmented isTokenChar behind rest :=
        ⟨fun b hb => hmem b (List.mem_cons_of_mem _ hb), h.2⟩
      have hall : behind.takeWhile isTokenChar = behind :=
        List.takeWhile_eq_self_iff.2 hbehind.1
      rw [if_neg (List.cons_ne_nil _ _), if_neg (List.cons_ne_nil _ _)]
      have hjoined : joined (q :: behind) rest = q :: joined behind rest := rfl
      rw [hjoined]
      dsimp only
      rw [if_pos hstart, (takeWhile_joined (fun _ => id) hbehind).1, hall, hsplit]
      have hlen := congrArg List.length hsplit
      rw [List.length_append, List.length_cons, List.length_cons] at hlen
      have hcount : ((c :: run).takeWhile beforeQueryChar).length + behind.length = run.length := by
        omega
      rw [hcount]

theorem queryInToken_sep (prev : Option Char) {s : Char} (hs : isTokenChar s = false)
    (text : List Char) : QUERY_IN_TOKEN prev (s :: text) = none := by
  have hb := beforeQueryChar_sep hs
  rw [QUERY_IN_TOKEN, List.takeWhile_cons, List.dropWhile_cons, hb]
  simp [isQueryStart_sep hs]

/-- One token is passed, and the walk goes on behind the next separator. -/
theorem dropQueries_token {prev : Option Char} (hprev : prev.any isTokenChar = false)
    {run : List Char} {rest : List (Char × List Char)} (h : Segmented isTokenChar run rest) :
    replaceFrom QUERY_IN_TOKEN 0 prev (joined run rest) =
      dropToken run ++ rest.head?.elim [] fun x =>
        x.1 :: replaceFrom QUERY_IN_TOKEN 0 (some x.1) (joined x.2 rest.tail) := by
  cases run with
  | nil =>
      cases rest with
      | nil => rfl
      | cons x rest =>
          obtain ⟨s, r⟩ := x
          show replaceFrom QUERY_IN_TOKEN 0 prev (s :: joined r rest) = _
          rw [replaceFrom, queryInToken_sep prev h.sep]
          rfl
  | cons c run =>
      obtain ⟨hc, hrun⟩ := List.forall_mem_cons.1 h.1
      have hjoined : joined (c :: run) rest = c :: joined run rest := rfl
      have hmatch := queryInToken_token hprev h
      rw [hjoined] at hmatch
      rw [hjoined, replaceFrom, hmatch]
      split
      · next hmatched =>
        split at hmatched
        · cases hmatched
        · obtain ⟨rfl, rfl⟩ := Prod.mk.inj (Option.some.inj hmatched)
          have happend : joined run rest = run ++ joined [] rest := rfl
          rw [happend, replaceFrom_skip, replaceFrom_behind queryInToken_behind
            (getLast_kind hc hrun)]
      · next hmatched =>
        split at hmatched
        · next hnone =>
          have hkeep : dropToken (c :: run) = c :: run := by rw [dropToken, hnone]
          rw [hkeep, replaceFrom_copy queryInToken_behind hc hrun]
          rfl
        · cases hmatched

/-- The first pass, token by token. -/
theorem dropQueries_joined {run : List Char} {rest : List (Char × List Char)}
    (h : Segmented isTokenChar run rest) :
    dropQueries (joined run rest) =
      joined (dropToken run) (rest.map fun x => (x.1, dropToken x.2)) := by
  suffices hwalk : ∀ prev : Option Char, prev.any isTokenChar = false →
      replaceFrom QUERY_IN_TOKEN 0 prev (joined run rest) =
        joined (dropToken run) (rest.map fun x => (x.1, dropToken x.2)) from
    hwalk none rfl
  induction rest generalizing run with
  | nil =>
      intro prev hprev
      rw [dropQueries_token hprev h]
      rfl
  | cons x rest ih =>
      intro prev hprev
      obtain ⟨s, r⟩ := x
      rw [dropQueries_token hprev h, List.map_cons, joined_cons,
        ← ih h.tail (some s) (by simp [h.sep])]
      rfl

/-! ## Tokens with a query to drop -/

/-- The query part of the token would be dropped. -/
def WouldDrop (token : List Char) : Prop :=
  ∃ beforeQuery q rest, token = beforeQuery ++ q :: rest ∧
    (∀ c ∈ beforeQuery, beforeQueryChar c = true) ∧ isQueryStart q = true ∧
    looksLikeQuery beforeQuery (q :: rest) = true

/-- The tokens of a text; some are empty. -/
def tokensOf (text : List Char) : List (List Char) :=
  (segments isTokenChar text).1 :: (segments isTokenChar text).2.map Prod.snd

def HasQuery (text : List Char) : Prop := ∃ token ∈ tokensOf text, WouldDrop token

theorem takeWhile_append_stop {q : Char → Bool} {l : List Char} (hl : ∀ c ∈ l, q c = true)
    {x : Char} (hx : q x = false) (t : List Char) :
    (l ++ x :: t).takeWhile q = l ∧ (l ++ x :: t).dropWhile q = x :: t := by
  induction l with
  | nil => simp [hx]
  | cons a l ih =>
      obtain ⟨ha, hl⟩ := List.forall_mem_cons.1 hl
      simp [ha, ih hl]

theorem beforeQueryChar_start {c : Char} (h : isQueryStart c = true) :
    beforeQueryChar c = false := by
  simp [beforeQueryChar, h]

/-- A token keeps its beginning; one that would be dropped is, and none is left. -/
theorem dropToken_spec {token : List Char} (h : ∀ c ∈ token, isTokenChar c = true) :
    dropToken token <+: token ∧ ¬WouldDrop (dropToken token) ∧
      (¬WouldDrop token → dropToken token = token) := by
  rw [dropToken]
  cases hq : token.dropWhile beforeQueryChar with
  | nil =>
      have hall : ∀ c ∈ token, beforeQueryChar c = true := by
        simpa using hq
      refine ⟨List.prefix_rfl, ?_, fun _ => rfl⟩
      rintro ⟨beforeQuery, q, rest, rfl, -, hstart, -⟩
      have := hall q (by simp)
      rw [beforeQueryChar_start hstart] at this
      cases this
  | cons q rest =>
      have hsplit := List.takeWhile_append_dropWhile (p := beforeQueryChar) (l := token)
      rw [hq] at hsplit
      have hbefore : ∀ c ∈ token.takeWhile beforeQueryChar, beforeQueryChar c = true :=
        fun c hc => List.mem_takeWhile_imp hc
      have hstart : isQueryStart q = true :=
        isQueryStart_of (h q (by rw [← hsplit]; simp)) (head_dropWhile hq)
      generalize token.takeWhile beforeQueryChar = beforeQuery at hsplit hbefore
      subst hsplit
      dsimp only
      rw [dropQuery]
      by_cases hlooks : looksLikeQuery beforeQuery (q :: rest) = true
      · rw [if_pos hlooks]
        refine ⟨List.prefix_append _ _, ?_, fun hno => ?_⟩
        · rintro ⟨b, q', rest', hb, -, hstart', -⟩
          have := hbefore q' (by rw [hb]; simp)
          rw [beforeQueryChar_start hstart'] at this
          cases this
        · exact absurd ⟨beforeQuery, q, rest, rfl, hbefore, hstart, hlooks⟩ hno
      · rw [if_neg hlooks]
        refine ⟨List.prefix_rfl, ?_, fun _ => rfl⟩
        rintro ⟨b, q', rest', heq, hb, hstart', hlooks'⟩
        have h₁ := takeWhile_append_stop hbefore (beforeQueryChar_start hstart) rest
        have h₂ := takeWhile_append_stop hb (beforeQueryChar_start hstart') rest'
        rw [heq] at h₁
        rw [h₁.1] at h₂
        rw [h₁.2] at h₂
        obtain ⟨rfl, hrest⟩ := h₂
        rw [hrest] at hlooks
        exact hlooks hlooks'

theorem segmented_dropToken {run : List Char} {rest : List (Char × List Char)}
    (h : Segmented isTokenChar run rest) :
    Segmented isTokenChar (dropToken run) (rest.map fun x => (x.1, dropToken x.2)) := by
  have hkeep : ∀ r : List Char, (∀ c ∈ r, isTokenChar c = true) →
      ∀ c ∈ dropToken r, isTokenChar c = true :=
    fun r hr c hc => hr c ((dropToken_spec hr).1.subset hc)
  refine ⟨hkeep run h.1, fun x hx => ?_⟩
  obtain ⟨x', hx', rfl⟩ := List.mem_map.1 hx
  exact ⟨(h.2 x' hx').1, hkeep x'.2 (h.2 x' hx').2⟩

theorem tokensOf_kind {text token : List Char} (h : token ∈ tokensOf text) :
    ∀ c ∈ token, isTokenChar c = true := by
  have hseg := segmented_segments isTokenChar text
  rcases List.mem_cons.1 h with rfl | h
  · exact hseg.1
  · obtain ⟨x, hx, rfl⟩ := List.mem_map.1 h
    exact (hseg.2 x hx).2

theorem tokensOf_dropQueries (text : List Char) :
    tokensOf (dropQueries text) = (tokensOf text).map dropToken := by
  have hseg := segmented_segments isTokenChar text
  have hpass := dropQueries_joined hseg
  rw [joined_segments] at hpass
  rw [tokensOf, hpass, segments_joined (segmented_dropToken hseg), tokensOf, List.map_cons,
    List.map_map, List.map_map]
  rfl

theorem not_hasQuery_dropQueries (text : List Char) : ¬HasQuery (dropQueries text) := by
  rintro ⟨token, htoken, hdrop⟩
  rw [tokensOf_dropQueries] at htoken
  obtain ⟨before, hbefore, rfl⟩ := List.mem_map.1 htoken
  exact (dropToken_spec (tokensOf_kind hbefore)).2.1 hdrop

theorem dropQueries_of_not_hasQuery {text : List Char} (h : ¬HasQuery text) :
    dropQueries text = text := by
  have hseg := segmented_segments isTokenChar text
  have hkeep : ∀ token ∈ tokensOf text, dropToken token = token := fun token htoken =>
    (dropToken_spec (tokensOf_kind htoken)).2.2 fun hdrop => h ⟨token, htoken, hdrop⟩
  have hpass := dropQueries_joined hseg
  rw [joined_segments, hkeep _ List.mem_cons_self] at hpass
  have hmap : (segments isTokenChar text).2.map (fun x => (x.1, dropToken x.2)) =
      (segments isTokenChar text).2 := by
    refine (List.map_congr_left fun x hx => ?_).trans (List.map_id _)
    rw [hkeep x.2 (List.mem_cons_of_mem _ (List.mem_map_of_mem hx))]
    rfl
  rw [hpass, hmap, joined_segments]

/-! A query that would be dropped shows in two of its characters. -/

def TellTale (x y : Char) : Prop :=
  (isQueryStart x = true ∧ (y = '=' ∨ y = '/')) ∨ (x = '/' ∧ isQueryStart y = true)

theorem exists_pair_of_hasQuery {text : List Char} (h : HasQuery text) :
    ∃ x y, TellTale x y ∧ PairIn isTokenChar x y text := by
  obtain ⟨token, htoken, beforeQuery, q, rest, rfl, -, hq, hlooks⟩ := h
  have hkind := tokensOf_kind htoken
  have hin := run_infix htoken
  rw [joined_segments] at hin
  obtain ⟨pre, post, htext⟩ := hin
  -- A slash in front of the query, or a sign inside it.
  have hcases : '/' ∈ beforeQuery ∨ ∃ y ∈ rest, y = '=' ∨ y = '/' := by
    rcases Bool.or_eq_true_iff.1 hlooks with hslash | hhint
    · exact .inl (by simpa using hslash)
    · obtain ⟨y, hy, hsign⟩ := List.any_eq_true.1 hhint
      have hsign : y = '=' ∨ y = '/' := by simpa using hsign
      rcases List.mem_cons.1 hy with rfl | hy
      · rcases hsign with rfl | rfl
        · exact absurd hq (by decide)
        · exact absurd hq (by decide)
      · exact .inr ⟨y, hy, hsign⟩
  rcases hcases with hslash | ⟨y, hy, hsign⟩
  · obtain ⟨l, r, rfl⟩ := List.append_of_mem hslash
    refine ⟨'/', q, .inr ⟨rfl, hq⟩, pre ++ l, r ++ q :: (rest ++ post), ?_, r, rest ++ post, rfl, ?_⟩
    · rw [← htext]
      simp
    · exact fun c hc => hkind c (by simp [hc])
  · obtain ⟨l, r, rfl⟩ := List.append_of_mem hy
    refine ⟨q, y, .inl ⟨hq, hsign⟩, pre ++ beforeQuery, l ++ y :: (r ++ post), ?_, l, r ++ post, rfl,
      ?_⟩
    · rw [← htext]
      simp
    · exact fun c hc => hkind c (by simp [hc])

theorem tellTale_token {x y : Char} (h : TellTale x y) :
    isTokenChar x = true ∧ isTokenChar y = true := by
  have hstart : ∀ c, isQueryStart c = true → isTokenChar c = true := by
    intro c hc
    cases ht : isTokenChar c with
    | true => rfl
    | false =>
        rw [isQueryStart_sep ht] at hc
        cases hc
  rcases h with ⟨hx, rfl | rfl⟩ | ⟨rfl, hy⟩
  · exact ⟨hstart x hx, by decide⟩
  · exact ⟨hstart x hx, by decide⟩
  · exact ⟨by decide, hstart y hy⟩

theorem dropWhile_suffix {q : Char → Bool} (l : List Char) {x : Char} (hx : q x = false)
    (t : List Char) : ∃ d, (l ++ x :: t).dropWhile q = d ++ x :: t := by
  induction l with
  | nil => exact ⟨[], by simp [hx]⟩
  | cons a l ih =>
      rw [List.cons_append, List.dropWhile_cons]
      split
      · exact ih
      · exact ⟨a :: l, rfl⟩

/-- A token is dropped from its first query sign on when a slash stands anywhere
in it, or an equals sign behind. -/
theorem wouldDrop_of {token : List Char} (hkind : ∀ c ∈ token, isTokenChar c = true)
    {d t : List Char} {x : Char} (hdrop : token.dropWhile beforeQueryChar = d ++ x :: t)
    (hsign : '/' ∈ token ∨ '=' ∈ x :: t) : WouldDrop token := by
  have hsplit := List.takeWhile_append_dropWhile (p := beforeQueryChar) (l := token)
  have hbefore : ∀ c ∈ token.takeWhile beforeQueryChar, beforeQueryChar c = true :=
    fun c hc => List.mem_takeWhile_imp hc
  obtain ⟨q, rest, hq⟩ : ∃ q rest, d ++ x :: t = q :: rest := by
    cases d with
    | nil => exact ⟨x, t, rfl⟩
    | cons q d => exact ⟨q, d ++ x :: t, rfl⟩
  rw [hq] at hdrop
  rw [hdrop] at hsplit
  have hstart : isQueryStart q = true :=
    isQueryStart_of (hkind q (by rw [← hsplit]; simp)) (head_dropWhile hdrop)
  refine ⟨token.takeWhile beforeQueryChar, q, rest, hsplit.symm, hbefore, hstart, ?_⟩
  rw [looksLikeQuery, Bool.or_eq_true, QUERY_HINT, List.any_eq_true]
  rcases hsign with hslash | hequals
  · rw [← hsplit, List.mem_append] at hslash
    rcases hslash with hslash | hslash
    · exact .inl (by simpa using hslash)
    · exact .inr ⟨'/', hslash, by decide⟩
  · exact .inr ⟨'=', by rw [← hq]; exact List.mem_append_right _ hequals, by decide⟩

theorem hasQuery_of_pair {text : List Char} {x y : Char} (htell : TellTale x y)
    (h : PairIn isTokenChar x y text) : HasQuery text := by
  obtain ⟨before, tail, rfl, mid, behind, rfl, hmid⟩ := h
  obtain ⟨hx, hy⟩ := tellTale_token htell
  have hall : ∀ c ∈ x :: (mid ++ [y]), isTokenChar c = true := by
    intro c hc
    simp only [List.mem_cons, List.mem_append, List.not_mem_nil, or_false] at hc
    rcases hc with rfl | hc | rfl
    · exact hx
    · exact hmid c hc
    · exact hy
  have hin : x :: (mid ++ [y]) <:+: before ++ x :: (mid ++ y :: behind) :=
    ⟨before, behind, by simp⟩
  rw [← joined_segments isTokenChar (before ++ x :: (mid ++ y :: behind))] at hin
  obtain ⟨token, htoken, pre, post, rfl⟩ :=
    infix_run (List.cons_ne_nil _ _) hall (segmented_segments _ _) hin
  have hkind := tokensOf_kind htoken
  refine ⟨_, htoken, ?_⟩
  rcases htell with ⟨hstart, hsign⟩ | ⟨rfl, hstart⟩
  · obtain ⟨d, hd⟩ := dropWhile_suffix pre (beforeQueryChar_start hstart) (mid ++ y :: post)
    have htext : pre ++ x :: (mid ++ [y]) ++ post = pre ++ x :: (mid ++ y :: post) := by simp
    rw [← htext] at hd
    refine wouldDrop_of hkind hd ?_
    rcases hsign with rfl | rfl
    · exact .inr (by simp)
    · exact .inl (by simp)
  · obtain ⟨d, hd⟩ := dropWhile_suffix (pre ++ '/' :: mid) (beforeQueryChar_start hstart) post
    have htext : pre ++ '/' :: (mid ++ [y]) ++ post = pre ++ '/' :: mid ++ y :: post := by simp
    rw [← htext] at hd
    exact wouldDrop_of hkind hd (.inl (by simp))

end CleanStack.SentryScrub
