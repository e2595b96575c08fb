import HourlyPrices.Time.Local
import HourlyPrices.Decimal.Text
import HourlyPrices.Text.Blank

/-!
# Reading dates and times by a pattern

A pattern is a list of fields and literal characters. Each field skips blanks, takes ASCII digits up
to its width and checks its own range at once; what is left over at the end is refused. The
parts are put together only when the whole text has been read, so that a day that its month does not
have is found last.
-/

namespace HourlyPrices.Time

open Text (isBlank trimStart)
open Decimal (digitValue?)

/-- Why a text does not fit a pattern. -/
inductive PatternFault where
  | outOfRange
  | notEnough
  | invalid
  | tooShort
  | tooLong
  deriving DecidableEq

/-- The wording of a fault. -/
def PatternFault.message : PatternFault → String
  | .outOfRange => "input is out of range"
  | .notEnough => "input is not enough for unique date and time"
  | .invalid => "input contains invalid characters"
  | .tooShort => "premature end of input"
  | .tooLong => "trailing input"

/-- The parts of a pattern. `fraction` is an optional point with digits of a second, of which nine
count. -/
inductive PatternItem where
  | year | month | day | hour | minute | second
  | fraction
  | literal (c : Char)
  | blanks
  deriving DecidableEq

/-- The fields read so far. -/
structure Fields where
  year : Option Int := none
  month : Option Nat := none
  day : Option Nat := none
  hour : Option Nat := none
  minute : Option Nat := none
  second : Option Nat := none
  nanos : Option Nat := none

/-- The largest number that a digit field may hold before its own range is checked. -/
def numberBound : Nat := 9223372036854775808

/-- Takes up to `width` digits after those of `n`. -/
def takeDigits (n : Nat) : Nat → List Char → Except PatternFault (Nat × List Char)
  | 0, cs => .ok (n, cs)
  | _ + 1, [] => .ok (n, [])
  | w + 1, c :: cs =>
    match digitValue? c with
    | none => .ok (n, c :: cs)
    | some d =>
      if n * 10 + d < numberBound then takeDigits (n * 10 + d) w cs else .error .outOfRange

/-- Reads a number of one digit at least and `width` digits at most. -/
def readNumber (width : Nat) : List Char → Except PatternFault (Nat × List Char)
  | [] => .error .tooShort
  | c :: cs =>
    match digitValue? c with
    | none => .error .invalid
    | some _ => takeDigits 0 width (c :: cs)

/-- A number in a range. -/
def inBounds (lo hi n : Nat) : Except PatternFault Nat :=
  if lo ≤ n ∧ n ≤ hi then .ok n else .error .outOfRange

/-- Reads a field of up to two digits with a range. -/
def readField (lo hi : Nat) (cs : List Char) : Except PatternFault (Nat × List Char) := do
  let (n, rest) ← readNumber 2 (trimStart cs)
  let n ← inBounds lo hi n
  return (n, rest)

/-- Reads a year: four digits at most, or any number of them behind a sign. -/
def readYear (cs : List Char) : Except PatternFault (Int × List Char) := do
  let check := fun y : Int =>
    if -2147483648 ≤ y ∧ y < 2147483648 then Except.ok y else .error PatternFault.outOfRange
  match trimStart cs with
  | '-' :: r =>
    let (n, rest) ← readNumber r.length r
    return (← check (-(n : Int)), rest)
  | '+' :: r =>
    let (n, rest) ← readNumber r.length r
    return (← check n, rest)
  | r =>
    let (n, rest) ← readNumber 4 r
    return (← check n, rest)

/-- Reads an optional fraction of a second; digits after the ninth do not count. -/
def readFraction : List Char → Except PatternFault (Option Nat × List Char)
  | '.' :: cs => do
    let (n, rest) ← readNumber 9 cs
    let used := cs.length - rest.length
    return (some (n * Nat.pow 10 (9 - used)), rest.dropWhile fun c => (digitValue? c).isSome)
  | cs => .ok (none, cs)

/-- Reads one part of a pattern. -/
def readItem (f : Fields) (cs : List Char) : PatternItem → Except PatternFault (Fields × List Char)
  | .year => do
    let (y, rest) ← readYear cs
    return ({ f with year := some y }, rest)
  | .month => do
    let (n, rest) ← readField 1 12 cs
    return ({ f with month := some n }, rest)
  | .day => do
    let (n, rest) ← readField 1 31 cs
    return ({ f with day := some n }, rest)
  | .hour => do
    let (n, rest) ← readField 0 23 cs
    return ({ f with hour := some n }, rest)
  | .minute => do
    let (n, rest) ← readField 0 59 cs
    return ({ f with minute := some n }, rest)
  | .second => do
    let (n, rest) ← readField 0 60 cs
    return ({ f with second := some n }, rest)
  | .fraction => do
    let (n, rest) ← readFraction cs
    return ({ f with nanos := n }, rest)
  | .literal c =>
    match cs with
    | [] => .error .tooShort
    | d :: rest => if c = d then .ok (f, rest) else .error .invalid
  | .blanks => .ok (f, trimStart cs)

/-- Reads the parts of a pattern from left to right; nothing may be left over. -/
def readItems (f : Fields) : List PatternItem → List Char → Except PatternFault Fields
  | [], [] => .ok f
  | [], _ :: _ => .error .tooLong
  | i :: is, cs => do
    let (f, rest) ← readItem f cs i
    readItems f is rest

/-- The date of the fields. -/
def Fields.date (f : Fields) : Except PatternFault Date :=
  match f.year, f.month, f.day with
  | some y, some m, some d =>
    match Date.ofParts? y m d with
    | some date => .ok date
    | none => .error .outOfRange
  | _, _, _ => .error .notEnough

/-- The time of day of the fields; seconds may be missing. -/
def Fields.timeOfDay (f : Fields) : Except PatternFault TimeOfDay :=
  match f.hour, f.minute with
  | some h, some m =>
    match TimeOfDay.ofParts? h m (f.second.getD 0) (f.nanos.getD 0) with
    | some t => .ok t
    | none => .error .outOfRange
  | _, _ => .error .notEnough

/-- The pattern `HH:MM`. -/
def hourMinute : List PatternItem := [.hour, .literal ':', .minute]

/-- The pattern `HH:MM:SS`. -/
def hourMinuteSecond : List PatternItem := hourMinute ++ [.literal ':', .second]

/-- The pattern `YYYY-MM-DD`. -/
def yearMonthDay : List PatternItem := [.year, .literal '-', .month, .literal '-', .day]

/-- The pattern `YYYY-MM-DDTHH:MM:SS` with a fraction. -/
def dateTime : List PatternItem :=
  yearMonthDay ++ .literal 'T' :: hourMinuteSecond ++ [.fraction]

/-- The pattern of `dateTime` with blanks before each separator up to the minute's end and after the
last field. -/
def spacedDateTime : List PatternItem :=
  [.year, .blanks, .literal '-', .month, .blanks, .literal '-', .day, .blanks, .literal 'T',
   .hour, .blanks, .literal ':', .minute, .blanks, .literal ':', .second, .fraction, .blanks]

/-- Reads a date. -/
def readDate (cs : List Char) : Except PatternFault Date := do (← readItems {} yearMonthDay cs).date

/-- Reads a time of day by a pattern. -/
def readTimeOfDay (pattern : List PatternItem) (cs : List Char) :
    Except PatternFault TimeOfDay := do
  (← readItems {} pattern cs).timeOfDay

/-- Reads a local time by a pattern. -/
def readLocalTime (pattern : List PatternItem) (cs : List Char) :
    Except PatternFault LocalTime := do
  let f ← readItems {} pattern cs
  return LocalTime.ofDate (← f.date) (← f.timeOfDay)

end HourlyPrices.Time
