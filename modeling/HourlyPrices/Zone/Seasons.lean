import HourlyPrices.Zone.Offsets

/-!
# Seasons

Most offset tables follow yearly rules such as "from the last Sunday of March". A rule names a day
of a month, the second of UTC counted from the start of that day, and the offset in force from then
on; a range of years and its rules give a list of changes.
-/

namespace HourlyPrices

/-- A day of a month, named so that it can be found in any year. Weekdays count from 0 for
Sunday. -/
inductive DayRule where
  | on (day : Nat)
  | onOrAfter (day weekday : Nat)
  | last (weekday : Nat)

/-- The day number of a rule's day in a year and month. -/
def DayRule.find (r : DayRule) (year : Int) (month : Nat) : Int :=
  match r with
  | .on day => Date.dayNumber ⟨year, month, day⟩
  | .onOrAfter day weekday => Date.firstOnOrAfter year month day weekday
  | .last weekday => Date.lastOf year month weekday

/-- A change that comes every year; `second` counts from midnight UTC of the day. -/
structure SeasonRule where
  month : Nat
  day : DayRule
  second : Int
  offset : Int

namespace SeasonRule

/-- The change in one year. -/
def inYear (r : SeasonRule) (year : Int) : OffsetChange :=
  ⟨r.day.find year r.month * secondsPerDay + r.second, r.offset⟩

end SeasonRule

/-- The changes of some rules in the years from `first` to `last`; the rules come in the order in
which they take effect within a year. -/
def seasonChanges (first last : Nat) (rules : List SeasonRule) : List OffsetChange :=
  (List.range (last + 1 - first)).flatMap fun i => rules.map (·.inYear (first + i : Nat))

/-- The change at one date. -/
def singleChange (year : Int) (month day : Nat) (second offset : Int) : OffsetChange :=
  SeasonRule.inYear ⟨month, .on day, second, offset⟩ year

/-- Some hours in seconds. -/
def hours (n : Int) : Int := n * secondsPerHour

end HourlyPrices
