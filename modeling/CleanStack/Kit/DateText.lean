import CleanStack.Kit.IsoDate
import Mathlib.Data.List.DropRight

/-!
# Reading dates

The way back from `toISOString`, and the texts that `INSTANT` accepts: a date
and a time of fixed-width fields, at most six digits of a fraction, and at most
a zone. What the digits of a text say is a date when they are the fields of the
date they count to, so the thirtieth of February is none.
-/

namespace CleanStack.Kit

/-! ## Digits -/

def digit? (c : Char) : Option Nat := if c.isDigit then some (c.toNat - 48) else none

/-- The number that `\d{width}` matches, and what follows it. -/
def readDigits : Nat → List Char → Option (Nat × List Char)
  | 0, cs => some (0, cs)
  | width + 1, cs =>
      match readDigits width cs with
      | some (n, c :: rest) => (digit? c).map fun d => (10 * n + d, rest)
      | _ => none

def expectChar (accepts : Char → Bool) : List Char → Option (List Char)
  | c :: rest => if accepts c then some rest else none
  | [] => none

theorem digit?_ofNat {d : Nat} (h : d < 10) : digit? (Char.ofNat (48 + d)) = some d := by
  have hall : ∀ d < 10, digit? (Char.ofNat (48 + d)) = some d := by decide
  exact hall d h

theorem isDigit_of_mem_digits {width n : Nat} {c : Char} (h : c ∈ digits width n) :
    c.isDigit = true := by
  have hall : ∀ d < 10, (Char.ofNat (48 + d)).isDigit = true := by decide
  induction width generalizing n with
  | zero => simp [digits] at h
  | succ width ih =>
      rw [digits, List.mem_append, List.mem_singleton] at h
      rcases h with hfront | rfl
      · exact ih hfront
      · exact hall _ (Nat.mod_lt n (by omega))

@[simp]
theorem readDigits_digits {width n : Nat} (rest : List Char) (h : n < 10 ^ width) :
    readDigits width (digits width n ++ rest) = some (n, rest) := by
  induction width generalizing n rest with
  | zero =>
      rw [Nat.pow_zero] at h
      obtain rfl : n = 0 := by omega
      rfl
  | succ width ih =>
      rw [Nat.pow_succ] at h
      rw [digits, List.append_assoc, readDigits, ih _ (show n / 10 < 10 ^ width by omega)]
      show (digit? (Char.ofNat (48 + n % 10))).map _ = _
      rw [digit?_ofNat (Nat.mod_lt n (by omega)), Option.map_some, Nat.div_add_mod]
      rfl

theorem digits_append_zeros (width n k : Nat) :
    digits width n ++ List.replicate k '0' = digits (width + k) (n * 10 ^ k) := by
  induction k with
  | zero => simp
  | succ k ih =>
      have hhigh : n * 10 ^ (k + 1) / 10 = n * 10 ^ k := by
        rw [Nat.pow_succ, ← Nat.mul_assoc, Nat.mul_div_cancel _ (by omega)]
      have hlow : n * 10 ^ (k + 1) % 10 = 0 := by
        rw [Nat.pow_succ, ← Nat.mul_assoc, Nat.mul_mod_left]
      rw [List.replicate_succ', ← List.append_assoc, ih, ← Nat.add_assoc, digits, hhigh, hlow]

/-! ## The fields of a date -/

/-- Days since the first of March of the year 0, days and months counted on
where they are too large. -/
def daysOf (year : Int) (month day : Nat) : Int :=
  let fromMarch := if month ≤ 2 then year - 1 else year
  let m := if month ≤ 2 then month + 9 else month - 3
  365 * fromMarch + fromMarch / 4 - fromMarch / 100 + fromMarch / 400 +
    ((153 * m + 2) / 5 : Nat) + day - 1

def msOf (f : DateFields) : Int :=
  (daysOf f.year f.month f.day - 719468) * DAY_MS + f.hour * 3600000 + f.minute * 60000 +
    f.second * 1000 + f.millisecond

/-- Of the years up to one, a fourth part are leap years but for the centuries,
of which again a fourth part are. -/
theorem days_of_years {c : Calendar} (hc : c.Fits) :
    365 * (400 * c.era + 100 * c.century + 4 * c.olympiad + c.year) +
        (400 * c.era + 100 * c.century + 4 * c.olympiad + c.year) / 4 -
        (400 * c.era + 100 * c.century + 4 * c.olympiad + c.year) / 100 +
        (400 * c.era + 100 * c.century + 4 * c.olympiad + c.year) / 400 =
      146097 * c.era + 36524 * c.century + 1461 * c.olympiad + 365 * c.year := by
  obtain ⟨hcentury, holympiad, hyear, -⟩ := hc
  have hfour : (400 * c.era + 100 * c.century + 4 * c.olympiad + c.year) / 4 =
      100 * c.era + 25 * c.century + c.olympiad := by
    omega
  have hhundred : (400 * c.era + 100 * c.century + 4 * c.olympiad + c.year) / 100 =
      4 * c.era + c.century := by
    omega
  have hall : (400 * c.era + 100 * c.century + 4 * c.olympiad + c.year) / 400 = c.era := by
    omega
  rw [hfour, hhundred, hall]
  omega

theorem daysOf_calendar {c : Calendar} (hc : c.Fits) :
    daysOf (400 * c.era + 100 * c.century + 4 * c.olympiad + c.year +
        (if monthOf c < 10 then 0 else 1))
      (if monthOf c < 10 then monthOf c + 3 else monthOf c - 9)
      (c.dayOfYear - (153 * monthOf c + 2) / 5 + 1) =
    146097 * c.era + 36524 * c.century + 1461 * c.olympiad + 365 * c.year + c.dayOfYear := by
  have hm := monthOf_le hc
  have hday : (153 * monthOf c + 2) / 5 ≤ c.dayOfYear := by
    unfold monthOf
    omega
  have hyears := days_of_years hc
  generalize 400 * c.era + 100 * c.century + 4 * c.olympiad + c.year = y at hyears ⊢
  generalize monthOf c = m at *
  unfold daysOf
  by_cases hspring : m < 10
  · rw [if_pos hspring, if_pos hspring, if_neg (by omega), if_neg (by omega)]
    simp only [Nat.add_sub_cancel, Int.add_zero]
    omega
  · rw [if_neg hspring, if_neg hspring, if_pos (by omega), if_pos (by omega)]
    have hback : m - 9 + 9 = m := by omega
    simp only [hback, Int.add_sub_cancel]
    omega

theorem msOf_fieldsOf (d : JsDate) : msOf (fieldsOf d) = d.ms := by
  have hdays := daysOf_calendar (calendarOf_fits (d.ms / DAY_MS + 719468))
  rw [← calendarOf_eq] at hdays
  simp only [msOf, fieldsOf, hdays]
  unfold DAY_MS
  omega

/-- The date whose fields these are. -/
def dateOf (f : DateFields) : Option JsDate :=
  if h : -8640000000000000 ≤ msOf f ∧ msOf f ≤ 8640000000000000 then
    if fieldsOf ⟨msOf f, h⟩ = f then some ⟨msOf f, h⟩ else none
  else none

theorem dateOf_fieldsOf (d : JsDate) : dateOf (fieldsOf d) = some d := by
  have hms := msOf_fieldsOf d
  have hd : (⟨msOf (fieldsOf d), by rw [hms]; exact d.inRange⟩ : JsDate) = d := JsDate.ext_ms hms
  rw [dateOf, dif_pos (by rw [hms]; exact d.inRange), hd, if_pos rfl]

/-! ## The clock -/

/-- From the month to the second, as a date's text and a timestamp's have them. -/
def clockText (separator : Char) (f : DateFields) : List Char :=
  '-' :: digits 2 f.month ++ '-' :: digits 2 f.day ++ separator :: digits 2 f.hour ++
    ':' :: digits 2 f.minute ++ ':' :: digits 2 f.second

def readClock (separates : Char → Bool) (year : Int) (cs : List Char) :
    Option (DateFields × List Char) := do
  let cs ← expectChar (· == '-') cs
  let (month, cs) ← readDigits 2 cs
  let cs ← expectChar (· == '-') cs
  let (day, cs) ← readDigits 2 cs
  let cs ← expectChar separates cs
  let (hour, cs) ← readDigits 2 cs
  let cs ← expectChar (· == ':') cs
  let (minute, cs) ← readDigits 2 cs
  let cs ← expectChar (· == ':') cs
  let (second, cs) ← readDigits 2 cs
  some (⟨year, month, day, hour, minute, second, 0⟩, cs)

theorem readClock_clockText {separates : Char → Bool} {separator : Char} {f : DateFields}
    (hf : f.Fits) (hseparates : separates separator = true) (rest : List Char) :
    readClock separates f.year (clockText separator f ++ rest) =
      some ({ f with millisecond := 0 }, rest) := by
  have hmonth := hf.month
  have hday := hf.day
  have hhour := hf.hour
  have hminute := hf.minute
  have hsecond := hf.second
  simp [readClock, clockText, expectChar, hseparates, hmonth, hday, hhour, hminute, hsecond]

/-! ## Texts of dates -/

theorem fieldsText_eq (f : DateFields) :
    fieldsText f =
      yearText f.year ++ (clockText 'T' f ++ '.' :: (digits 3 f.millisecond ++ ['Z'])) := by
  simp [fieldsText, clockText]

/-- Four digits, or a sign and six. -/
def readYear (cs : List Char) : Option (Int × List Char) :=
  match cs with
  | '+' :: cs => (readDigits 6 cs).map fun r => ((r.1 : Int), r.2)
  | '-' :: cs => (readDigits 6 cs).map fun r => (-(r.1 : Int), r.2)
  | _ => (readDigits 4 cs).map fun r => ((r.1 : Int), r.2)

theorem readYear_of_digit {c : Char} {cs : List Char} (h : c.isDigit = true) :
    readYear (c :: cs) = (readDigits 4 (c :: cs)).map fun r => ((r.1 : Int), r.2) := by
  unfold readYear
  split
  · simp_all [Char.isDigit]
  · simp_all [Char.isDigit]
  · rfl

theorem readYear_yearText {year : Int} (h : year.natAbs < 1000000) (rest : List Char) :
    readYear (yearText year ++ rest) = some (year, rest) := by
  unfold yearText
  by_cases hfour : 0 ≤ year ∧ year ≤ 9999
  · have hread := readDigits_digits rest (show year.toNat < 10 ^ 4 by omega)
    have hdigit : ∀ c ∈ digits 4 year.toNat, c.isDigit = true := fun c => isDigit_of_mem_digits
    have hlen := length_digits 4 year.toNat
    rw [if_pos hfour]
    cases hdigits : digits 4 year.toNat with
    | nil => simp [hdigits] at hlen
    | cons c cs =>
        rw [hdigits] at hread hdigit
        rw [List.cons_append, readYear_of_digit (hdigit c List.mem_cons_self),
          ← List.cons_append, hread, Option.map_some, Int.toNat_of_nonneg hfour.1]
  · rw [if_neg hfour]
    by_cases hneg : year < 0
    · rw [if_pos hneg]
      show (readDigits 6 (digits 6 year.natAbs ++ rest)).map _ = _
      rw [readDigits_digits rest h, Option.map_some]
      congr 2
      omega
    · rw [if_neg hneg]
      show (readDigits 6 (digits 6 year.natAbs ++ rest)).map _ = _
      rw [readDigits_digits rest h, Option.map_some]
      congr 2
      omega

def readIsoFields (cs : List Char) : Option DateFields := do
  let (year, cs) ← readYear cs
  let (f, cs) ← readClock (· == 'T') year cs
  let cs ← expectChar (· == '.') cs
  let (millisecond, cs) ← readDigits 3 cs
  let cs ← expectChar (· == 'Z') cs
  if cs = [] then some { f with millisecond := millisecond } else none

theorem readIsoFields_fieldsText {f : DateFields} (hf : f.Fits) :
    readIsoFields (fieldsText f) = some f := by
  have hms := hf.millisecond
  rw [fieldsText_eq, readIsoFields, readYear_yearText hf.year]
  simp only [Option.bind_eq_bind, Option.bind_some]
  rw [readClock_clockText hf (by rfl)]
  simp [expectChar, hms]

/-- `new Date(text)`: the texts of `toISOString` are dates, and of other texts
an engine makes what it will. -/
def newDate (other : String → Option JsDate) (text : String) : Option JsDate :=
  ((readIsoFields text.toList).bind dateOf).or (other text)

theorem newDate_toISOString (other : String → Option JsDate) (d : JsDate) :
    newDate other (toISOString d) = some d := by
  rw [newDate, toISOString, String.toList_ofList, readIsoFields_fieldsText (fieldsOf_fits d),
    Option.bind_some, dateOf_fieldsOf, Option.some_or]

/-! ## Instants -/

/-- What an instant's text says: the fields of a date, the microseconds past
its millisecond, and the zone. -/
structure Instant where
  date : DateFields
  micro : Nat
  zone : List Char
  deriving DecidableEq

/-- `(\.\d{1,6})?`, as microseconds. -/
def readFraction : List Char → Option (Nat × List Char)
  | '.' :: cs =>
      let ds := cs.takeWhile Char.isDigit
      if 1 ≤ ds.length ∧ ds.length ≤ 6 then
        (readDigits 6 (ds ++ List.replicate (6 - ds.length) '0')).map fun r =>
          (r.1, cs.drop ds.length)
      else none
  | cs => some (0, cs)

/-- `(Z|[+-]\d{2}(:?\d{2})?)?$` -/
def isZone : List Char → Bool
  | [] => true
  | ['Z'] => true
  | sign :: a :: b :: rest =>
      (sign = '+' || sign = '-') && a.isDigit && b.isDigit &&
        match rest with
        | [] => true
        | [c, d] => c.isDigit && d.isDigit
        | [colon, c, d] => colon = ':' && c.isDigit && d.isDigit
        | _ => false
  | _ => false

/-- The texts `INSTANT` accepts, and what they say. -/
def readInstant (cs : List Char) : Option Instant := do
  let (year, cs) ← readDigits 4 cs
  let (f, cs) ← readClock (fun c => c = ' ' || c = 'T') year cs
  let (fraction, cs) ← readFraction cs
  if isZone cs then some ⟨{ f with millisecond := fraction / 1000 }, fraction % 1000, cs⟩
  else none

/-- A fraction in digits, its last zeros left out. -/
def fractionText (fraction : Nat) : List Char :=
  if fraction = 0 then [] else '.' :: (digits 6 fraction).rdropWhile (· == '0')

/-- Digits are a fraction when zeros fill them up to microseconds. -/
theorem readFraction_of_digits {ds rest : List Char} {fraction : Nat}
    (hdigits : ∀ c ∈ ds, c.isDigit = true) (hne : ds ≠ []) (hlen : ds.length ≤ 6)
    (hfraction : fraction < 10 ^ 6)
    (hfill : ds ++ List.replicate (6 - ds.length) '0' = digits 6 fraction)
    (hrest : rest.takeWhile Char.isDigit = []) :
    readFraction ('.' :: (ds ++ rest)) = some (fraction, rest) := by
  have htake : (ds ++ rest).takeWhile Char.isDigit = ds := by
    rw [List.takeWhile_append_of_pos hdigits, hrest, List.append_nil]
  have hread := readDigits_digits [] hfraction
  rw [List.append_nil] at hread
  have hpos := List.length_pos_of_ne_nil hne
  simp only [readFraction, htake]
  rw [if_pos ⟨by omega, hlen⟩, hfill, hread, Option.map_some, List.drop_left]

theorem fill_fraction (fraction : Nat) :
    (digits 6 fraction).rdropWhile (· == '0') ++
        List.replicate (6 - ((digits 6 fraction).rdropWhile (· == '0')).length) '0' =
      digits 6 fraction := by
  have hsplit := List.rdropWhile_append_rtakeWhile (p := (· == '0')) (l := digits 6 fraction)
  have hzeros : (digits 6 fraction).rtakeWhile (· == '0') =
      List.replicate ((digits 6 fraction).rtakeWhile (· == '0')).length '0' := by
    refine List.eq_replicate_of_mem fun c hc => ?_
    simpa using List.mem_rtakeWhile_imp hc
  have hlen := congrArg List.length hsplit
  rw [List.length_append, length_digits] at hlen
  rw [show 6 - ((digits 6 fraction).rdropWhile (· == '0')).length =
    ((digits 6 fraction).rtakeWhile (· == '0')).length by omega, ← hzeros, hsplit]

theorem digits_zero (width : Nat) : digits width 0 = List.replicate width '0' := by
  have h := digits_append_zeros 0 0 width
  rw [Nat.zero_mul, Nat.zero_add] at h
  exact h.symm

theorem readFraction_fractionText {fraction : Nat} (h : fraction < 10 ^ 6) :
    readFraction (fractionText fraction) = some (fraction, []) := by
  unfold fractionText
  by_cases hzero : fraction = 0
  · rw [if_pos hzero, hzero]
    rfl
  · have hstart := List.rdropWhile_prefix (p := (· == '0')) (l := digits 6 fraction)
    have hfill := fill_fraction fraction
    have hlen := hstart.length_le
    rw [length_digits] at hlen
    have hne : (digits 6 fraction).rdropWhile (· == '0') ≠ [] := by
      -- only zeros fill nothing up to zeros
      intro hnil
      rw [hnil] at hfill
      have hsame : digits 6 fraction = digits 6 0 := by
        rw [digits_zero]
        exact hfill.symm
      exact hzero (digits_injective h (by decide) hsame)
    have hread : readFraction ('.' :: ((digits 6 fraction).rdropWhile (· == '0') ++ [])) =
        some (fraction, []) :=
      readFraction_of_digits (fun c hc => isDigit_of_mem_digits (hstart.subset hc)) hne hlen h
        hfill rfl
    rw [if_neg hzero]
    rwa [List.append_nil] at hread

theorem readFraction_milliseconds {millisecond : Nat} (h : millisecond < 1000) :
    readFraction ('.' :: (digits 3 millisecond ++ ['Z'])) =
      some (millisecond * 1000, ['Z']) := by
  have hfill : digits 3 millisecond ++ List.replicate (6 - (digits 3 millisecond).length) '0' =
      digits 6 (millisecond * 1000) := by
    rw [length_digits]
    exact digits_append_zeros 3 millisecond 3
  refine readFraction_of_digits (fun c hc => isDigit_of_mem_digits hc) ?_ (by simp) (by omega)
    hfill (by decide)
  intro hnil
  have hlen := congrArg List.length hnil
  simp at hlen

/-- A year of four digits, a clock and a fraction are an instant. -/
theorem readInstant_of_fields (separator : Char) {f : DateFields} {cs zone : List Char}
    {fraction : Nat} (hf : f.Fits) (hyear : 0 ≤ f.year ∧ f.year ≤ 9999)
    (hseparator : separator = ' ' ∨ separator = 'T')
    (hfraction : readFraction cs = some (fraction, zone)) (hzone : isZone zone = true) :
    readInstant (digits 4 f.year.toNat ++ (clockText separator f ++ cs)) =
      some ⟨{ f with millisecond := fraction / 1000 }, fraction % 1000, zone⟩ := by
  have hclock : readClock (fun c => c = ' ' || c = 'T') f.year (clockText separator f ++ cs) =
      some ({ f with millisecond := 0 }, cs) :=
    readClock_clockText hf (by simpa using hseparator) cs
  rw [readInstant, readDigits_digits _ (by omega)]
  simp only [Option.bind_eq_bind, Option.bind_some, Int.toNat_of_nonneg hyear.1, hclock,
    hfraction, hzone, if_true]

end CleanStack.Kit
