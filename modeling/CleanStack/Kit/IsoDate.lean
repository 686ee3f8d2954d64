import Mathlib.Algebra.Group.Nat.Defs
import Mathlib.Data.List.Basic

/-!
# Dates as text

A `Date` is a count of milliseconds, and only counts within 8640000000000000 of
zero are dates; `JsDate` carries that bound. `toISOString` is the text of a date
in the proleptic Gregorian calendar at UTC: a year of four digits, or a signed
year of six where four do not reach, then fixed-width fields down to the
millisecond.

The calendar is counted in years that begin in March, so that the leap day is
the last of its year. Two dates with the same text are the same date, because
every step from the count to the fields can be taken back.
-/

namespace CleanStack.Kit

structure JsDate where
  ms : Int
  inRange : -8640000000000000 ≤ ms ∧ ms ≤ 8640000000000000
  deriving DecidableEq

theorem JsDate.ext_ms {a b : JsDate} (h : a.ms = b.ms) : a = b := by
  cases a
  cases b
  cases h
  rfl

/-! ## The calendar -/

def DAY_MS : Int := 86400000

/-- A day, as its year from March on, the year's place among four, the four's
among a hundred and the hundred's among four hundred. -/
structure Calendar where
  era : Int
  century : Nat
  olympiad : Nat
  year : Nat
  dayOfYear : Nat
  deriving DecidableEq

/-- Days since the first of March of the year 0. -/
def calendarOf (days : Int) : Calendar :=
  let dayOfEra := (days % 146097).toNat
  let century := min (dayOfEra / 36524) 3
  let dayOfCentury := dayOfEra - 36524 * century
  let olympiad := dayOfCentury / 1461
  let dayOfOlympiad := dayOfCentury - 1461 * olympiad
  let year := min (dayOfOlympiad / 365) 3
  ⟨days / 146097, century, olympiad, year, dayOfOlympiad - 365 * year⟩

/-- The fields of the ISO form. -/
structure DateFields where
  year : Int
  month : Nat
  day : Nat
  hour : Nat
  minute : Nat
  second : Nat
  millisecond : Nat
  deriving DecidableEq

/-- Months are counted from March, and the fifth part of 153 days is a month. -/
def monthOf (c : Calendar) : Nat := (5 * c.dayOfYear + 2) / 153

def fieldsOf (d : JsDate) : DateFields :=
  let c := calendarOf (d.ms / DAY_MS + 719468)
  let m := monthOf c
  let time := (d.ms % DAY_MS).toNat
  { year := 400 * c.era + 100 * c.century + 4 * c.olympiad + c.year + (if m < 10 then 0 else 1)
    month := if m < 10 then m + 3 else m - 9
    day := c.dayOfYear - (153 * m + 2) / 5 + 1
    hour := time / 3600000
    minute := time / 60000 % 60
    second := time / 1000 % 60
    millisecond := time % 1000 }

/-! ## The text -/

/-- The last `width` decimal digits, `padStart(width, "0")` of a number that
has no more. -/
def digits : Nat → Nat → List Char
  | 0, _ => []
  | width + 1, n => digits width (n / 10) ++ [Char.ofNat (48 + n % 10)]

def yearText (year : Int) : List Char :=
  if 0 ≤ year ∧ year ≤ 9999 then digits 4 year.toNat
  else (if year < 0 then '-' else '+') :: digits 6 year.natAbs

def fieldsText (f : DateFields) : List Char :=
  yearText f.year ++ '-' :: digits 2 f.month ++ '-' :: digits 2 f.day ++
    'T' :: digits 2 f.hour ++ ':' :: digits 2 f.minute ++ ':' :: digits 2 f.second ++
    '.' :: digits 3 f.millisecond ++ ['Z']

def toISOString (d : JsDate) : String := String.ofList (fieldsText (fieldsOf d))

example : toISOString ⟨0, by decide⟩ = "1970-01-01T00:00:00.000Z" := by decide +kernel

example : toISOString ⟨1709251199999, by decide⟩ = "2024-02-29T23:59:59.999Z" := by
  decide +kernel

/-! ## No two dates share a text -/

structure Calendar.Fits (c : Calendar) : Prop where
  century : c.century ≤ 3
  olympiad : c.olympiad ≤ 24
  year : c.year ≤ 3
  dayOfYear : c.dayOfYear ≤ 365

theorem calendarOf_fits (days : Int) : (calendarOf days).Fits := by
  unfold calendarOf
  constructor <;> simp only <;> omega

theorem calendarOf_eq (days : Int) :
    days = 146097 * (calendarOf days).era + 36524 * (calendarOf days).century +
      1461 * (calendarOf days).olympiad + 365 * (calendarOf days).year +
      (calendarOf days).dayOfYear := by
  unfold calendarOf
  simp only
  omega

theorem monthOf_le {c : Calendar} (h : c.Fits) : monthOf c ≤ 11 := by
  have := h.dayOfYear
  unfold monthOf
  omega

structure DateFields.Fits (f : DateFields) : Prop where
  year : f.year.natAbs < 1000000
  month : f.month < 100
  day : f.day < 100
  hour : f.hour < 100
  minute : f.minute < 100
  second : f.second < 100
  millisecond : f.millisecond < 1000

theorem fieldsOf_fits (d : JsDate) : (fieldsOf d).Fits := by
  have hc := calendarOf_fits (d.ms / DAY_MS + 719468)
  have heq := calendarOf_eq (d.ms / DAY_MS + 719468)
  have hm := monthOf_le hc
  have hrange := d.inRange
  obtain ⟨hcentury, holympiad, hyear, hday⟩ := hc
  unfold DAY_MS at *
  unfold fieldsOf DAY_MS
  constructor
  · simp only
    split <;> omega
  · simp only
    split <;> omega
  · simp only [monthOf] at hm ⊢
    omega
  · simp only
    omega
  · simp only
    omega
  · simp only
    omega
  · simp only
    omega

theorem fieldsOf_injective {a b : JsDate} (h : fieldsOf a = fieldsOf b) : a = b := by
  obtain ⟨hyear, hmonth, hday, hhour, hminute, hsecond, hms⟩ := DateFields.mk.inj h
  have hca := calendarOf_fits (a.ms / DAY_MS + 719468)
  have hcb := calendarOf_fits (b.ms / DAY_MS + 719468)
  have hdays : a.ms / DAY_MS + 719468 = b.ms / DAY_MS + 719468 := by
    rw [calendarOf_eq (a.ms / DAY_MS + 719468), calendarOf_eq (b.ms / DAY_MS + 719468)]
    generalize calendarOf (a.ms / DAY_MS + 719468) = ca at *
    generalize calendarOf (b.ms / DAY_MS + 719468) = cb at *
    have hma := monthOf_le hca
    have hmb := monthOf_le hcb
    have hsame : monthOf ca = monthOf cb := by
      split at hmonth <;> split at hmonth <;> omega
    rw [hsame] at hyear hday
    have hyears : 400 * ca.era + 100 * ca.century + 4 * ca.olympiad + ca.year =
        400 * cb.era + 100 * cb.century + 4 * cb.olympiad + cb.year := by
      omega
    obtain ⟨hcentury, holympiad, hy, hd⟩ := hca
    obtain ⟨hcentury', holympiad', hy', hd'⟩ := hcb
    have hdayOfYear : ca.dayOfYear = cb.dayOfYear := by
      unfold monthOf at *
      omega
    omega
  have htime : a.ms % DAY_MS = b.ms % DAY_MS := by
    unfold DAY_MS at *
    omega
  apply JsDate.ext_ms
  unfold DAY_MS at *
  omega

@[simp]
theorem length_digits (width n : Nat) : (digits width n).length = width := by
  induction width generalizing n with
  | zero => rfl
  | succ width ih => rw [digits, List.length_append, ih, List.length_singleton]

theorem digit_injective {a b : Nat} (ha : a < 10) (hb : b < 10)
    (h : Char.ofNat (48 + a) = Char.ofNat (48 + b)) : a = b := by
  have hcode : ∀ x < 10, (Char.ofNat (48 + x)).toNat = 48 + x := by decide
  have hsame := congrArg Char.toNat h
  rw [hcode a ha, hcode b hb] at hsame
  omega

theorem digits_injective {width a b : Nat} (ha : a < 10 ^ width) (hb : b < 10 ^ width)
    (h : digits width a = digits width b) : a = b := by
  induction width generalizing a b with
  | zero =>
      rw [Nat.pow_zero] at ha hb
      omega
  | succ width ih =>
      rw [digits, digits] at h
      obtain ⟨hrest, hlast⟩ := List.append_inj' h rfl
      rw [Nat.pow_succ] at ha hb
      have hhigh : a / 10 = b / 10 := ih (by omega) (by omega) hrest
      have hlow : a % 10 = b % 10 :=
        digit_injective (by omega) (by omega) (List.cons.inj hlast).1
      omega

/-- The two forms of a year have different lengths. -/
theorem yearText_injective {a b : Int} (ha : a.natAbs < 1000000) (hb : b.natAbs < 1000000)
    (h : yearText a = yearText b) : a = b := by
  unfold yearText at h
  by_cases hpa : 0 ≤ a ∧ a ≤ 9999
  · by_cases hpb : 0 ≤ b ∧ b ≤ 9999
    · rw [if_pos hpa, if_pos hpb] at h
      have := digits_injective (by omega) (by omega) h
      omega
    · rw [if_pos hpa, if_neg hpb] at h
      have hlen := congrArg List.length h
      simp at hlen
  · by_cases hpb : 0 ≤ b ∧ b ≤ 9999
    · rw [if_neg hpa, if_pos hpb] at h
      have hlen := congrArg List.length h
      simp at hlen
    · rw [if_neg hpa, if_neg hpb] at h
      obtain ⟨hsign, hdigits⟩ := List.cons.inj h
      have habs := digits_injective (by omega) (by omega) hdigits
      by_cases hna : a < 0
      · by_cases hnb : b < 0
        · omega
        · rw [if_pos hna, if_neg hnb] at hsign
          exact absurd hsign (by decide)
      · by_cases hnb : b < 0
        · rw [if_neg hna, if_pos hnb] at hsign
          exact absurd hsign (by decide)
        · omega

theorem fieldsText_injective {f g : DateFields} (hf : f.Fits) (hg : g.Fits)
    (h : fieldsText f = fieldsText g) : f = g := by
  unfold fieldsText at h
  obtain ⟨h, -⟩ := List.append_inj' h rfl
  obtain ⟨h, hms⟩ := List.append_inj' h (by simp)
  obtain ⟨h, hsecond⟩ := List.append_inj' h (by simp)
  obtain ⟨h, hminute⟩ := List.append_inj' h (by simp)
  obtain ⟨h, hhour⟩ := List.append_inj' h (by simp)
  obtain ⟨h, hday⟩ := List.append_inj' h (by simp)
  obtain ⟨hyear, hmonth⟩ := List.append_inj' h (by simp)
  have two : ∀ {c : Char} {a b : Nat}, a < 100 → b < 100 →
      c :: digits 2 a = c :: digits 2 b → a = b :=
    fun ha hb h => digits_injective ha hb (List.cons.inj h).2
  have e1 := yearText_injective hf.year hg.year hyear
  have e2 := two hf.month hg.month hmonth
  have e3 := two hf.day hg.day hday
  have e4 := two hf.hour hg.hour hhour
  have e5 := two hf.minute hg.minute hminute
  have e6 := two hf.second hg.second hsecond
  have e7 := digits_injective hf.millisecond hg.millisecond (List.cons.inj hms).2
  cases f
  cases g
  cases e1
  cases e2
  cases e3
  cases e4
  cases e5
  cases e6
  cases e7
  rfl

theorem toISOString_injective {a b : JsDate} (h : toISOString a = toISOString b) : a = b := by
  have hchars : fieldsText (fieldsOf a) = fieldsText (fieldsOf b) := by
    have := congrArg String.toList h
    simpa [toISOString] using this
  exact fieldsOf_injective
    (fieldsText_injective (fieldsOf_fits a) (fieldsOf_fits b) hchars)

end CleanStack.Kit
