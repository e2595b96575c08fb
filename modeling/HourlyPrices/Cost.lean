import HourlyPrices.Fault
import HourlyPrices.Series
import HourlyPrices.Tariff.Hourly

/-!
# The cost of a constant draw

Drawing a constant power over an interval costs, for each clock hour that the interval meets, its
price times the power times the seconds of the overlap. An hour without a price makes the whole cost
unknown: the cost of the other hours alone would be too low.
-/

namespace HourlyPrices

/-- The watt-seconds of a kilowatt-hour. -/
def wattSecondsPerKwh : Nat := 3600000

/-- The cost of an interval, or the first hour whose price is missing. -/
inductive Cost where
  | amount (d : Decimal)
  | priceMissing (hour : Instant)
  deriving DecidableEq

namespace Cost

/-- The cost as a number, zero when a price is missing. -/
def value : Cost → Decimal
  | .amount d => d
  | .priceMissing _ => .zero

/-- Whole seconds of the overlap of a clock hour with an interval. -/
def overlapSeconds (start stop hour : Instant) : Int :=
  ((Instant.earliest stop (hour.shift (Span.ofHours 1))).since (Instant.latest start hour)).seconds

/-- Price times power times seconds. -/
def share (price watts : Decimal) (seconds : Int) : Except Overflow Decimal := do
  let power ← Overflow.decimal.unless (price.mul? watts)
  let seconds ← Overflow.decimal.unless (Decimal.ofInt? seconds)
  Overflow.decimal.unless (power.mul? seconds)

/-- Adds the shares of some hours to what has been summed so far, and scales the sum at the end. The
end of each hour has to be representable, whether the hour has a price or not. -/
def sumHours (prices : Series) (start stop : Instant) (watts total : Decimal) :
    List Instant → Except Overflow Cost
  | [] => do return .amount (← Overflow.decimal.unless (total.divNat? wattSecondsPerKwh))
  | h :: hs => do
    let _ ← Overflow.time.unless h.nextHour?
    match prices.get? h with
    | none => return .priceMissing h
    | some price =>
      let part ← share price watts (overlapSeconds start stop h)
      let total ← Overflow.decimal.unless (total.add? part)
      sumHours prices start stop watts total hs

/-- The cost of drawing `watts` from `start` to `stop`; nothing when the interval is empty. -/
def ofInterval (prices : Series) (start stop : Instant) (watts : Decimal) :
    Except Overflow Cost :=
  if stop ≤ start then .ok (.amount .zero)
  else sumHours prices start stop watts .zero (hoursBetween start.hourStart stop)

end Cost

end HourlyPrices
