import CleanStack.Kit.DateText
import Mathlib.Data.List.Lex

/-!
# Columns that lists are ordered by

A `timestamp` column stores microseconds, of which the driver's `Date` keeps the
milliseconds and the column's own text everything. A `text` column is compared
by its collation, which gives every text a sort key of its own.
-/

namespace CleanStack.Drizzle

open CleanStack.Kit

/-- A `timestamp` value: the date the driver makes of it, and the microseconds
past that. -/
structure Timestamp where
  date : JsDate
  micro : Nat
  micro_lt : micro < 1000
  deriving DecidableEq

/-- What is stored of a date. -/
def Timestamp.ofDate (d : JsDate) : Timestamp := ⟨d, 0, by decide⟩

def Timestamp.micros (t : Timestamp) : Int := t.date.ms * 1000 + t.micro

/-- A date as a parameter of a statement. -/
def dateMicros (d : JsDate) : Int := d.ms * 1000

/-- `Date` keeps the milliseconds. -/
def wholeMillis (micros : Int) : Int := micros / 1000 * 1000

theorem wholeMillis_le (micros : Int) : wholeMillis micros ≤ micros := by
  unfold wholeMillis
  omega

theorem dateMicros_date (t : Timestamp) : dateMicros t.date = wholeMillis t.micros := by
  have := t.micro_lt
  unfold dateMicros wholeMillis Timestamp.micros
  omega

def FourDigitYear (d : JsDate) : Prop := 1 ≤ (fieldsOf d).year ∧ (fieldsOf d).year ≤ 9999

instance (d : JsDate) : Decidable (FourDigitYear d) :=
  inferInstanceAs (Decidable (_ ∧ _))

/-! ## The text of a column -/

/-- The year of the common era, in four digits where they reach. -/
def columnYear (year : Int) : List Char :=
  let n := (if 1 ≤ year then year else 1 - year).toNat
  if n ≤ 9999 then digits 4 n else Nat.toDigits 10 n

/-- `column::text` -/
def columnText (t : Timestamp) : String :=
  let f := fieldsOf t.date
  String.ofList (columnYear f.year ++ (clockText ' ' f ++
    (fractionText (f.millisecond * 1000 + t.micro) ++
      if 1 ≤ f.year then [] else [' ', 'B', 'C'])))

/-- The microseconds an instant's text counts to. -/
def instantMicros (i : Instant) : Option Int :=
  (dateOf i.date).map fun d => dateMicros d + i.micro

/-- A text compared with a `timestamp`: its zone is passed over. What the
database makes of a text that is no date is left open. -/
def asTimestamp (other : String → Option Int) (text : String) : Option Int :=
  ((readInstant text.toList).bind instantMicros).or (other text)

/-- A text compared with a `timestamptz`, where another zone than UTC counts. -/
def asTimestamptz (other : String → Option Int) (text : String) : Option Int :=
  (((readInstant text.toList).filter fun i => i.zone = ['Z']).bind instantMicros).or (other text)

theorem readInstant_columnText {t : Timestamp} (h : FourDigitYear t.date) :
    readInstant (columnText t).toList = some ⟨fieldsOf t.date, t.micro, []⟩ := by
  obtain ⟨hlow, hhigh⟩ := h
  have hmicro := t.micro_lt
  have hfits := fieldsOf_fits t.date
  have hms := hfits.millisecond
  have hfraction := readFraction_fractionText
    (show (fieldsOf t.date).millisecond * 1000 + t.micro < 10 ^ 6 by omega)
  have hread := readInstant_of_fields ' ' hfits ⟨by omega, hhigh⟩ (Or.inl rfl)
    hfraction rfl
  have hdiv : ((fieldsOf t.date).millisecond * 1000 + t.micro) / 1000 =
      (fieldsOf t.date).millisecond := by
    omega
  have hmod : ((fieldsOf t.date).millisecond * 1000 + t.micro) % 1000 = t.micro := by
    omega
  simp only [columnText, columnYear, String.toList_ofList]
  rw [if_pos hlow, if_pos hlow, if_pos (by omega), List.append_nil, hread, hdiv, hmod]

theorem readInstant_toISOString {d : JsDate} (h : FourDigitYear d) :
    readInstant (toISOString d).toList = some ⟨fieldsOf d, 0, ['Z']⟩ := by
  obtain ⟨hlow, hhigh⟩ := h
  have hfits := fieldsOf_fits d
  have hread := readInstant_of_fields 'T' hfits ⟨by omega, hhigh⟩ (Or.inr rfl)
    (readFraction_milliseconds hfits.millisecond) rfl
  have hdiv : (fieldsOf d).millisecond * 1000 / 1000 = (fieldsOf d).millisecond := by omega
  have hmod : (fieldsOf d).millisecond * 1000 % 1000 = 0 := by omega
  rw [toISOString, String.toList_ofList, fieldsText_eq, yearText, if_pos ⟨by omega, hhigh⟩, hread,
    hdiv, hmod]

theorem micros_fieldsOf (d : JsDate) (micro : Nat) (zone : List Char) :
    instantMicros ⟨fieldsOf d, micro, zone⟩ = some (dateMicros d + micro) := by
  rw [instantMicros, dateOf_fieldsOf, Option.map_some]

/-- A column's text is compared as the column's value. -/
theorem asTimestamp_columnText (other : String → Option Int) {t : Timestamp}
    (h : FourDigitYear t.date) : asTimestamp other (columnText t) = some t.micros := by
  rw [asTimestamp, readInstant_columnText h, Option.bind_some, micros_fieldsOf, Option.some_or]
  rfl

theorem asTimestamptz_toISOString (other : String → Option Int) {d : JsDate}
    (h : FourDigitYear d) : asTimestamptz other (toISOString d) = some (dateMicros d) := by
  rw [asTimestamptz, readInstant_toISOString h, Option.filter_some, if_pos (by simp),
    Option.bind_some, micros_fieldsOf, Option.some_or, Int.natCast_zero, Int.add_zero]

/-! ## Collations -/

structure Collation where
  sortKey : String → List Nat
  injective : Function.Injective sortKey

/-- The order of the code points. -/
def Collation.codePoints : Collation where
  sortKey text := text.toList.map Char.toNat
  injective a b h := by
    have hinj : Function.Injective Char.toNat := fun c d hcd => Char.toNat_inj.1 hcd
    exact String.toList_inj.1 (List.map_injective_iff.2 hinj h)

end CleanStack.Drizzle
