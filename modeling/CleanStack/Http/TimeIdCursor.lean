import CleanStack.Drizzle.Columns
import Mathlib.Data.Prod.Lex

/-!
# Time and id cursors

A cursor holds the time and the id of the last row of a page, the time as its
column's text has it. The id may hold the separator: the first one ends the
time, and no time has one.

The comparison is made by the database, so the time is read there. A cursor the
database cannot read fails the statement.
-/

namespace CleanStack.Http

open CleanStack.Kit CleanStack.Drizzle

def SEPARATOR : Char := '~'

/-- `at` and `id` -/
structure TimeIdCursor where
  atText : String
  id : String
  deriving DecidableEq

def INSTANT (text : List Char) : Bool := (readInstant text).isSome

def notIssued : String := "This cursor was not issued by this list."

def timeIdCursorSchema (raw : String) : Except String TimeIdCursor :=
  match raw.toList.idxOf? SEPARATOR with
  | none => .error notIssued
  | some cut =>
      let atText := raw.toList.take cut
      let id := raw.toList.drop (cut + 1)
      if 0 < cut ∧ 0 < id.length ∧ INSTANT atText = true then
        .ok ⟨String.ofList atText, String.ofList id⟩
      else .error notIssued

def encodeTimeIdCursor (atText id : String) : String :=
  atText ++ String.singleton SEPARATOR ++ id

/-- The time is earlier, or it is the same and the id comes first. -/
def afterTimeIdCursor (collation : Collation) (instant : Int) (cursorId : String) (time : Int)
    (id : String) : Bool :=
  decide (time < instant) ||
    (decide (time = instant) && decide (collation.sortKey id < collation.sortKey cursorId))

/-! ## What is encoded is decoded -/

theorem not_mem_of_digits {width n : Nat} : SEPARATOR ∉ digits width n := by
  intro h
  exact absurd (isDigit_of_mem_digits h) (by decide)

theorem not_mem_clockText {separator : Char} {f : DateFields} (h : separator ≠ SEPARATOR) :
    SEPARATOR ∉ clockText separator f := by
  have hdash : SEPARATOR ≠ '-' := by decide
  have hcolon : SEPARATOR ≠ ':' := by decide
  simp [clockText, not_mem_of_digits, hdash, hcolon, h.symm]

theorem not_mem_fractionText {fraction : Nat} : SEPARATOR ∉ fractionText fraction := by
  unfold fractionText
  split
  · simp
  · rw [List.mem_cons, not_or]
    exact ⟨by decide, fun h => not_mem_of_digits ((List.rdropWhile_prefix _ _).subset h)⟩

theorem not_mem_columnText {t : Timestamp} (h : FourDigitYear t.date) :
    SEPARATOR ∉ (columnText t).toList := by
  have hhigh := h.2
  simp only [columnText, columnYear, String.toList_ofList]
  rw [if_pos h.1, if_pos h.1, if_pos (by omega), List.append_nil]
  simp only [List.mem_append, not_or]
  exact ⟨not_mem_of_digits, not_mem_clockText (by decide), not_mem_fractionText⟩

theorem not_mem_toISOString {d : JsDate} (h : FourDigitYear d) :
    SEPARATOR ∉ (toISOString d).toList := by
  obtain ⟨hlow, hhigh⟩ := h
  rw [toISOString, String.toList_ofList, fieldsText_eq, yearText, if_pos ⟨by omega, hhigh⟩]
  simp only [List.mem_append, List.mem_cons, not_or]
  exact ⟨not_mem_of_digits, not_mem_clockText (by decide), by decide, not_mem_of_digits,
    by decide, by simp⟩

theorem idxOf?_append_cons {front back : List Char} {c : Char} (h : c ∉ front) :
    (front ++ c :: back).idxOf? c = some front.length := by
  induction front with
  | nil => simp [List.idxOf?_cons]
  | cons d front ih =>
      rw [List.mem_cons, not_or] at h
      rw [List.cons_append, List.idxOf?_cons, ih h.2]
      simp [Ne.symm h.1]

/-- The separator after the time is the first one, whatever the id holds. -/
theorem timeIdCursorSchema_encode {atText id : String} (hat : SEPARATOR ∉ atText.toList)
    (hinstant : INSTANT atText.toList = true) (hid : id ≠ "") :
    timeIdCursorSchema (encodeTimeIdCursor atText id) = .ok ⟨atText, id⟩ := by
  have hchars : (encodeTimeIdCursor atText id).toList =
      atText.toList ++ SEPARATOR :: id.toList := by
    simp [encodeTimeIdCursor]
  have hpos : 0 < atText.toList.length := by
    refine List.length_pos_of_ne_nil fun hempty => ?_
    rw [hempty] at hinstant
    exact absurd hinstant (by decide)
  have hne : 0 < id.toList.length := by
    refine List.length_pos_of_ne_nil fun hempty => ?_
    exact hid (String.toList_eq_nil_iff.1 hempty)
  have htake : (atText.toList ++ SEPARATOR :: id.toList).take atText.toList.length =
      atText.toList := List.take_left
  have hdrop : (atText.toList ++ SEPARATOR :: id.toList).drop (atText.toList.length + 1) =
      id.toList := by
    simp [List.drop_append]
  unfold timeIdCursorSchema
  rw [hchars, idxOf?_append_cons hat]
  simp only [htake, hdrop]
  rw [if_pos ⟨hpos, hne, hinstant⟩, String.ofList_toList, String.ofList_toList]

/-- A page's last row and the rows after it, in the order of time and id. -/
theorem afterTimeIdCursor_eq (collation : Collation) (instant time : Int) (cursorId id : String) :
    afterTimeIdCursor collation instant cursorId time id =
      decide (toLex (time, collation.sortKey id) < toLex (instant, collation.sortKey cursorId)) := by
  rw [afterTimeIdCursor, ← Bool.decide_and, ← Bool.decide_or]
  exact decide_eq_decide.2 (Prod.Lex.toLex_lt_toLex (x := (time, collation.sortKey id))
    (y := (instant, collation.sortKey cursorId))).symm

end CleanStack.Http
