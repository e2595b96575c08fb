import HourlyPrices.Time.Pattern

/-!
# Instants in RFC 3339

A date and a time of day, which may have a fraction, followed by the distance of that clock from
UTC: `Z`, or hours and minutes behind a sign.
-/

namespace HourlyPrices.Instant

open Decimal (digitValue?)

/-- The value of two digits. -/
def twoDigits? (a b : Char) : Option Nat := do return (← digitValue? a) * 10 + (← digitValue? b)

/-- Splits off the distance from UTC, in seconds. -/
def splitOffset? (cs : List Char) : Option (List Char × Int) :=
  match cs.reverse with
  | 'Z' :: r => some (r.reverse, 0)
  | m₂ :: m₁ :: ':' :: h₂ :: h₁ :: sign :: r => do
    let n := (← twoDigits? h₁ h₂) * 3600 + (← twoDigits? m₁ m₂) * 60
    if sign = '+' then some (r.reverse, (n : Int))
    else if sign = '-' then some (r.reverse, -(n : Int))
    else none
  | _ => none

/-- Reads an instant. -/
def ofText? (s : String) : Option Instant := do
  let (front, offset) ← splitOffset? s.toList
  let l ← (Time.readLocalTime Time.dateTime front).toOption
  return ⟨l.seconds - offset, l.nanos, l.nanos_lt⟩

end HourlyPrices.Instant
