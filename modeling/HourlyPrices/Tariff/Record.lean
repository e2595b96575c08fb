import HourlyPrices.Decimal.Basic
import HourlyPrices.Time.Local

/-!
# Tariff records

A tariff is published as an interval of local time, open at its end if need be, with up to 24
values, one for each hour of the day. A record that publishes only its first value applies it to
every hour.
-/

namespace HourlyPrices

/-- A published tariff. The last value is always present. -/
structure TariffRecord where
  validFrom : LocalTime
  /-- The end of validity, which is no longer part of it. -/
  validTo : Option LocalTime
  code : String
  prices : List (Option Decimal)
  trimmed : prices.getLast? ≠ some none
  deriving DecidableEq

namespace TariffRecord

/-- The number of price columns of a record. -/
def priceColumns : Nat := 24

/-- A list without the missing values at its end. -/
def trimMissing (ps : List (Option Decimal)) : List (Option Decimal) :=
  (ps.reverse.dropWhile Option.isNone).reverse

theorem getLast?_trimMissing (ps : List (Option Decimal)) :
    (trimMissing ps).getLast? ≠ some none := by
  rw [trimMissing, List.getLast?_reverse]
  generalize ps.reverse = qs
  induction qs with
  | nil => simp
  | cons q qs ih =>
    rw [List.dropWhile_cons]
    split
    · exact ih
    · rename_i h
      intro hq
      simp only [List.head?_cons, Option.some.injEq] at hq
      simp [hq] at h

/-- A record with these values, less the missing ones at the end. -/
def ofPrices (validFrom : LocalTime) (validTo : Option LocalTime) (code : String)
    (prices : List (Option Decimal)) : TariffRecord :=
  ⟨validFrom, validTo, code, trimMissing prices, getLast?_trimMissing prices⟩

/-- Whether a single value applies to every hour. -/
def isFlat (r : TariffRecord) : Bool := r.prices.length == 1

/-- The value with this number; of a flat record, its only value. -/
def value? (r : TariffRecord) (index : Nat) : Option Decimal :=
  if r.isFlat then r.prices.head?.join else r.prices[index]?.join

/-- Whether the record is valid at or after a local time. -/
def endsAfter (r : TariffRecord) (l : LocalTime) : Bool :=
  match r.validTo with
  | none => true
  | some stop => l.asUtc < stop.asUtc

end TariffRecord

end HourlyPrices
