/-!
# Calendar dates

Dates of the Gregorian calendar, continued into the past, and their numbering by days from the start
of 1970. Dates are read and printed by year, month and day; arithmetic is done on day numbers.
-/

namespace HourlyPrices

/-- A date by its year, month (from 1) and day (from 1). -/
structure Date where
  year : Int
  month : Nat
  day : Nat
  deriving DecidableEq

namespace Date

/-- Every fourth year is a leap year, except the centuries that 400 does not divide. -/
def isLeap (year : Int) : Bool := year % 4 == 0 && (year % 100 != 0 || year % 400 == 0)

/-- The number of days of a month. -/
def daysInMonth (year : Int) (month : Nat) : Nat :=
  if month = 2 then (if isLeap year then 29 else 28)
  else if month = 4 ∨ month = 6 ∨ month = 9 ∨ month = 11 then 30
  else 31

/-- The first year that is representable. -/
def minYear : Int := -262143

/-- The last year that is representable. -/
def maxYear : Int := 262142

/-- The date exists and its year is representable. -/
def Valid (d : Date) : Prop :=
  minYear ≤ d.year ∧ d.year ≤ maxYear ∧ 1 ≤ d.month ∧ d.month ≤ 12 ∧
  1 ≤ d.day ∧ d.day ≤ daysInMonth d.year d.month

instance (d : Date) : Decidable d.Valid := inferInstanceAs (Decidable (_ ∧ _))

/-- The date with these parts, when it exists. -/
def ofParts? (year : Int) (month day : Nat) : Option Date :=
  if Valid ⟨year, month, day⟩ then some ⟨year, month, day⟩ else none

/-- Days from the start of 1970. Years are counted from March, so that the leap day comes last, in
eras of 400 years, which all have the same length. -/
def dayNumber (d : Date) : Int :=
  let y := if d.month ≤ 2 then d.year - 1 else d.year
  let era := y / 400
  let yearOfEra := y % 400
  let dayOfYear : Int := (153 * (((d.month + 9) % 12 : Nat) : Int) + 2) / 5 + d.day - 1
  era * 146097 + (yearOfEra * 365 + yearOfEra / 4 - yearOfEra / 100 + dayOfYear) - 719468

/-- The date of a day number. -/
def ofDayNumber (n : Int) : Date :=
  let z := n + 719468
  let era := z / 146097
  let dayOfEra := z % 146097
  let yearOfEra := (dayOfEra - dayOfEra / 1460 + dayOfEra / 36524 - dayOfEra / 146096) / 365
  let dayOfYear := dayOfEra - (365 * yearOfEra + yearOfEra / 4 - yearOfEra / 100)
  let monthFromMarch := (5 * dayOfYear + 2) / 153
  let day := dayOfYear - (153 * monthFromMarch + 2) / 5 + 1
  let month := if monthFromMarch < 10 then monthFromMarch + 3 else monthFromMarch - 9
  let year := yearOfEra + era * 400
  ⟨if month ≤ 2 then year + 1 else year, month.toNat, day.toNat⟩

/-- The day of the week of a day number, from 0 for Sunday. -/
def weekday (n : Int) : Nat := ((n + 4) % 7).toNat

/-- The day number of the first given weekday on or after the given day of a month. -/
def firstOnOrAfter (year : Int) (month day weekday : Nat) : Int :=
  let n := dayNumber ⟨year, month, day⟩
  n + (((weekday : Int) - Date.weekday n) % 7)

/-- The day number of the last given weekday of a month. -/
def lastOf (year : Int) (month weekday : Nat) : Int :=
  firstOnOrAfter year month (daysInMonth year month - 6) weekday

end Date

end HourlyPrices
