import HourlyPrices.Time.Local
import HourlyPrices.Decimal.Text

/-!
# The text of dates and times

Years have four digits, and a sign when they lie outside of 0 to 9999. Instants are written in UTC,
ending in `Z`, either without a fraction or with 0, 3, 6 or 9 digits of it, the fewest that show
the value. A leap second is written as second 60.
-/

namespace HourlyPrices

open Decimal (paddedDigits)

/-- At least four digits, with a sign outside of 0 to 9999. -/
def yearText (y : Int) : List Char :=
  if 0 ≤ y ∧ y ≤ 9999 then paddedDigits 4 y.toNat
  else (if y < 0 then '-' else '+') :: paddedDigits 4 y.natAbs

/-- The text `YYYY-MM-DD`. -/
def Date.toChars (d : Date) : List Char :=
  yearText d.year ++ '-' :: paddedDigits 2 d.month ++ '-' :: paddedDigits 2 d.day

/-- The text `YYYY-MM-DD`. -/
def Date.toText (d : Date) : String := String.ofList d.toChars

/-- The fraction of a second in as few groups of three digits as show it. -/
def fractionText (nanos : Nat) : List Char :=
  if nanos = 0 then []
  else if nanos % 1000000 = 0 then '.' :: paddedDigits 3 (nanos / 1000000)
  else if nanos % 1000 = 0 then '.' :: paddedDigits 6 (nanos / 1000)
  else '.' :: paddedDigits 9 nanos

/-- The text `HH:MM:SS` without a fraction. -/
def TimeOfDay.wholeChars (t : TimeOfDay) : List Char :=
  paddedDigits 2 t.hour ++ ':' :: paddedDigits 2 t.minute ++ ':' :: paddedDigits 2 t.second

/-- The text `HH:MM:SS` with the fraction, if any. -/
def TimeOfDay.toText (t : TimeOfDay) : String :=
  String.ofList (t.wholeChars ++ fractionText t.subNanos)

/-- The text of a local time with a given separator and no fraction. -/
def LocalTime.wholeChars (separator : Char) (t : LocalTime) : List Char :=
  t.date.toChars ++ separator :: t.timeOfDay.wholeChars

/-- The text `YYYY-MM-DDTHH:MM:SS` with the fraction, if any. -/
def LocalTime.toText (t : LocalTime) : String :=
  String.ofList (t.wholeChars 'T' ++ fractionText t.timeOfDay.subNanos)

/-- The text `YYYY-MM-DD HH:MM:SS`. -/
def LocalTime.readableText (t : LocalTime) : String := String.ofList (t.wholeChars ' ')

/-- The text of an instant with its fraction, if any. -/
def Instant.toText (t : Instant) : String := (LocalTime.ofUtc t).toText ++ "Z"

/-- The text of an instant without its fraction. -/
def Instant.toSecondText (t : Instant) : String :=
  String.ofList ((LocalTime.ofUtc t).wholeChars 'T') ++ "Z"

/-- The text `YYYY-MM-DD HH:MM:SS UTC` with the fraction, if any. -/
def Instant.readableText (t : Instant) : String :=
  let l := LocalTime.ofUtc t
  String.ofList (l.wholeChars ' ' ++ fractionText l.timeOfDay.subNanos) ++ " UTC"

end HourlyPrices
