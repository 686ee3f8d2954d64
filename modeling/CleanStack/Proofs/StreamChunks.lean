import CleanStack.WebKit.NotificationStream

/-!
# Where the chunks end does not matter

A separator ends where its second line feed stands and asks for nothing behind it.
An incomplete one is at most a line break and a carriage return, in which no other
separator begins, so splitting the text as it arrives is splitting it whole.
-/

namespace CleanStack.WebKit

open CleanStack.Kit CleanStack.Lib

/-! ## The separators -/

theorem lineSeparator_lf (text : JsString) : LINE_SEPARATOR (lf :: text) = 1 := rfl

theorem lineSeparator_cr_lf (text : JsString) : LINE_SEPARATOR (cr :: lf :: text) = 2 := rfl

theorem lineSeparator_cases (text : JsString) :
    (∃ rest, text = lf :: rest) ∨ (∃ rest, text = cr :: lf :: rest) ∨ LINE_SEPARATOR text = 0 := by
  rcases text with _ | ⟨a, _ | ⟨b, rest⟩⟩
  · exact .inr (.inr rfl)
  · by_cases ha : a = lf
    · exact .inl ⟨[], by rw [ha]⟩
    · exact .inr (.inr (by simp [LINE_SEPARATOR, ha]))
  · by_cases ha : a = lf
    · exact .inl ⟨b :: rest, by rw [ha]⟩
    · by_cases hb : a = cr ∧ b = lf
      · exact .inr (.inl ⟨rest, by rw [hb.1, hb.2]⟩)
      · exact .inr (.inr (by simp [LINE_SEPARATOR, ha, hb]))

/-- A line break that is still incomplete. -/
theorem lineSeparator_incomplete {x y : JsString} (h : LINE_SEPARATOR x = 0)
    (hlate : LINE_SEPARATOR (x ++ y) ≠ 0) : x = [] ∨ x = [cr] := by
  rcases x with _ | ⟨a, _ | ⟨b, rest⟩⟩
  · exact .inl rfl
  · rcases lineSeparator_cases ([a] ++ y) with ⟨rest, heq⟩ | ⟨rest, heq⟩ | hnone
    · rw [(List.cons.inj heq).1] at h
      cases h
    · exact .inr (by rw [(List.cons.inj heq).1])
    · exact absurd hnone hlate
  · have hsame : LINE_SEPARATOR (a :: b :: rest ++ y) = LINE_SEPARATOR (a :: b :: rest) := rfl
    exact absurd (hsame.trans h) hlate

theorem frameSeparator_of_line {x rest : JsString} {n : Nat} (h : LINE_SEPARATOR x = n + 1)
    (hdrop : x.drop (n + 1) = rest) :
    FRAME_SEPARATOR x = if LINE_SEPARATOR rest = 0 then 0 else n + 1 + LINE_SEPARATOR rest := by
  simp only [FRAME_SEPARATOR, h, hdrop, Nat.succ_ne_zero, if_false]

theorem frameSeparator_lf (rest : JsString) : FRAME_SEPARATOR (lf :: rest) =
    if LINE_SEPARATOR rest = 0 then 0 else 1 + LINE_SEPARATOR rest :=
  frameSeparator_of_line (lineSeparator_lf rest) rfl

theorem frameSeparator_cr_lf (rest : JsString) : FRAME_SEPARATOR (cr :: lf :: rest) =
    if LINE_SEPARATOR rest = 0 then 0 else 2 + LINE_SEPARATOR rest :=
  frameSeparator_of_line (lineSeparator_cr_lf rest) rfl

theorem frameSeparator_none {x : JsString} (h : LINE_SEPARATOR x = 0) : FRAME_SEPARATOR x = 0 := by
  simp only [FRAME_SEPARATOR, h, if_true]

theorem lineSeparator_le (x : JsString) : LINE_SEPARATOR x ≤ x.length := by
  rcases lineSeparator_cases x with ⟨rest, rfl⟩ | ⟨rest, rfl⟩ | hnone
  · rw [lineSeparator_lf]
    exact Nat.succ_pos _
  · rw [lineSeparator_cr_lf]
    exact Nat.le_add_left 2 _
  · rw [hnone]
    exact Nat.zero_le _

theorem lineSeparator_append {x : JsString} (y : JsString) (h : LINE_SEPARATOR x ≠ 0) :
    LINE_SEPARATOR (x ++ y) = LINE_SEPARATOR x := by
  rcases lineSeparator_cases x with ⟨rest, rfl⟩ | ⟨rest, rfl⟩ | hnone
  · rfl
  · rfl
  · exact absurd hnone h

/-- What can be in front of an incomplete separator's end. -/
def partials : List JsString := [[], [cr], [lf], [lf, cr], [cr, lf], [cr, lf, cr]]

theorem frameSeparator_incomplete {x y : JsString} (h : FRAME_SEPARATOR x = 0)
    (hlate : FRAME_SEPARATOR (x ++ y) ≠ 0) : x ∈ partials := by
  have hsecond : ∀ {rest : JsString} {n : Nat},
      (if LINE_SEPARATOR rest = 0 then 0 else n + 1 + LINE_SEPARATOR rest) = 0 →
      (if LINE_SEPARATOR (rest ++ y) = 0 then 0 else n + 1 + LINE_SEPARATOR (rest ++ y)) ≠ 0 →
      rest = [] ∨ rest = [cr] := by
    intro rest n hnow hthen
    by_cases hrest : LINE_SEPARATOR rest = 0
    · refine lineSeparator_incomplete (y := y) hrest fun hzero => hthen ?_
      rw [if_pos hzero]
    · rw [if_neg hrest] at hnow
      omega
  rcases lineSeparator_cases x with ⟨rest, rfl⟩ | ⟨rest, rfl⟩ | hnone
  · rw [frameSeparator_lf] at h
    rw [List.cons_append, frameSeparator_lf] at hlate
    rcases hsecond (n := 0) h hlate with rfl | rfl <;> decide
  · rw [frameSeparator_cr_lf] at h
    rw [List.cons_append, List.cons_append, frameSeparator_cr_lf] at hlate
    rcases hsecond (n := 1) h hlate with rfl | rfl <;> decide
  · have hline : LINE_SEPARATOR (x ++ y) ≠ 0 := fun hzero => hlate (frameSeparator_none hzero)
    rcases lineSeparator_incomplete hnone hline with rfl | rfl <;> decide

theorem settled_frameSeparator : Settled FRAME_SEPARATOR where
  le_length x := by
    rcases lineSeparator_cases x with ⟨rest, rfl⟩ | ⟨rest, rfl⟩ | hnone
    · have hle := lineSeparator_le rest
      rw [frameSeparator_lf, List.length_cons]
      split_ifs <;> omega
    · have hle := lineSeparator_le rest
      rw [frameSeparator_cr_lf, List.length_cons, List.length_cons]
      split_ifs <;> omega
    · rw [frameSeparator_none hnone]
      exact Nat.zero_le _
  append x y h := by
    rcases lineSeparator_cases x with ⟨rest, rfl⟩ | ⟨rest, rfl⟩ | hnone
    · have hrest : LINE_SEPARATOR rest ≠ 0 := fun hzero => h (by rw [frameSeparator_lf, if_pos hzero])
      rw [List.cons_append, frameSeparator_lf, frameSeparator_lf, lineSeparator_append y hrest]
    · have hrest : LINE_SEPARATOR rest ≠ 0 :=
        fun hzero => h (by rw [frameSeparator_cr_lf, if_pos hzero])
      rw [List.cons_append, List.cons_append, frameSeparator_cr_lf, frameSeparator_cr_lf,
        lineSeparator_append y hrest]
    · exact absurd (frameSeparator_none hnone) h
  incomplete x y h hlate s hs := by
    have hquiet : ∀ p ∈ partials, ∀ s ∈ p.tails, FRAME_SEPARATOR s = 0 := by
      intro p hp s hs
      have hall : (partials.all fun p => p.tails.all fun s => FRAME_SEPARATOR s == 0) = true := by
        decide
      exact eq_of_beq (List.all_eq_true.1 (List.all_eq_true.1 hall p hp) s hs)
    exact hquiet x (frameSeparator_incomplete h hlate) s ((List.mem_tails s x).2 hs)

/-! ## Chunks -/

/-- What is behind the last separator, and how many notifications are in front of it. -/
theorem handleStreamChunk_append (x more : JsString) :
    handleStreamChunk (x ++ more) =
      ((handleStreamChunk x).1 + (handleStreamChunk ((handleStreamChunk x).2 ++ more)).1,
        (handleStreamChunk ((handleStreamChunk x).2 ++ more)).2) := by
  have hne : split FRAME_SEPARATOR x ≠ [] := split_ne_nil FRAME_SEPARATOR 0 [] x
  have hresidue : (handleStreamChunk x).2 = (split FRAME_SEPARATOR x).getLast hne := by
    simp only [handleStreamChunk, List.getLast?_eq_some_getLast hne, Option.getD_some]
  have hmore : split FRAME_SEPARATOR ((split FRAME_SEPARATOR x).getLast hne ++ more) ≠ [] :=
    split_ne_nil FRAME_SEPARATOR 0 [] _
  rw [hresidue]
  simp only [handleStreamChunk, split_append settled_frameSeparator x more,
    List.dropLast_append_of_ne_nil hmore, List.countP_append,
    List.getLast?_append_of_ne_nil _ hmore]

theorem consume_append (x : JsString) (values : List JsString) :
    handleStreamChunk (x ++ values.flatten) =
      ((handleStreamChunk x).1 + (consume (handleStreamChunk x).2 values).1,
        (consume (handleStreamChunk x).2 values).2) := by
  induction values generalizing x with
  | nil => simp [consume]
  | cons value values ih =>
    rw [List.flatten_cons, ← List.append_assoc, ih, consume, handleStreamChunk_append x value,
      Nat.add_assoc]

/-- Two ways of cutting one stream into chunks. -/
theorem consume_chunks {values others : List JsString} (h : values.flatten = others.flatten) :
    consume [] values = consume [] others ∧
      consume [] values = handleStreamChunk values.flatten := by
  have hwhole : ∀ values, consume [] values = handleStreamChunk values.flatten := fun values => by
    have happend := consume_append [] values
    have hempty : handleStreamChunk [] = (0, []) := rfl
    rw [List.nil_append, hempty, Nat.zero_add] at happend
    exact happend.symm
  exact ⟨by rw [hwhole values, hwhole others, h], hwhole values⟩

/-- Cut between the two characters of a line break, or not at all. -/
theorem consume_chunks_two :
    consume [] [unitsOf "event: notification\r", unitsOf "\n\r\nid: 1"] =
      consume [] [unitsOf "event: notification\r\n\r\nid: 1"] :=
  (consume_chunks (by decide)).1

end CleanStack.WebKit
