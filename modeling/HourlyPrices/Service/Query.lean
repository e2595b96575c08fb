import HourlyPrices.Cost
import HourlyPrices.Currency
import HourlyPrices.FuturePrice
import HourlyPrices.Service.Download
import HourlyPrices.Text.Quoted

/-!
# Queries

Consumers can ask for the series of components and their sum, for the cost of a draw, for the
current value of a component and for the curve of future prices. A series that is missing altogether
is downloaded on the way. Value added tax is part of current values only.
-/

namespace HourlyPrices

namespace Config

/-- The value of a component in the current hour, with value added tax if it is to be included. -/
def currentValue (c : Config) (cache : Cache) (k : Component) (now : Instant) :
    Except Overflow (Option Decimal) :=
  match cache.valueAt? k now with
  | none => .ok none
  | some v =>
    if k ∈ c.vat.includeVat then
      return some (← Overflow.decimal.unless (v.mul? (vatFactor c.vat.country)))
    else .ok (some v)

/-- A short description of the service for diagnosis. -/
def serviceText (c : Config) : String :=
  "PriceService \x7b price_area: " ++ Text.quoted c.service.priceArea ++ ", currency: " ++
    c.service.currency.code ++ ", .. \x7d"

/-- The text of the curve of future prices. -/
def futurePrices (c : Config) (cache : Cache) : String :=
  FuturePrice.curveText (FuturePrice.curve cache c.service.currency)

end Config

/-- Adds prices to a series, hour by hour; an hour that has none yet has zero. -/
def Series.addAll (s : Series) (prices : List (Instant × Decimal)) : Except Overflow Series :=
  prices.foldlM (fun s (t, p) => do
    let sum ← Overflow.decimal.unless (((s.get? t).getD .zero).add? p)
    return s.insert t sum) s

namespace Query

/-- The context of sums in the log. -/
def sumContext : LogContext := { component := "actions" }

/-- The context of costs in the log. -/
def costContext : LogContext := { component := "calculator" }

/-- What is logged about a cost that is not known. -/
def costEvent? : Cost → Option LogEvent
  | .priceMissing hour =>
    some (costContext.event .warn s!"Price missing at {hour.readableText}")
  | .amount _ => none

/-- The series of a component. One that is empty is downloaded once; if that fails, it stays
empty. -/
def series (c : Config) (k : Component) : Activity Series := do
  if ((← .cached).get k).isEmpty then
    match ← Download.component c k with
    | .ok _ => .store (← .lift ((← .cached).cleanup c.cache (← .view).now))
    | .error f => .log c.serviceContext .warn s!"Error retrieving {k.name}: {f.message}"
  return (← .cached).get k

/-- The sum of a series and those of some components. -/
def sumFrom (c : Config) (total : Series) : List Component → Activity Series
  | [] => return total
  | k :: ks => do
    let s ← series c k
    let total ← .lift (total.addAll s.entries)
    sumFrom c total ks

/-- Whether the sum of some components mixes currencies: tariffs come in the primary currency
only. -/
def mixesCurrencies (c : Config) (ks : List Component) : Bool :=
  ks.contains .spotPrice && 1 < ks.length && !c.service.currency.isPrimary

/-- The sum of some components for each hour that one of them has. -/
def sum (c : Config) (ks : List Component) : Activity Series :=
  if mixesCurrencies c ks then do
    .log sumContext .warn
      s!"Cannot calculate sum when spot price currency is {c.service.currency.code}"
    return .empty
  else sumFrom c .empty ks

/-- The sum of the components with these names between commas, and of all components when there are
no names. There is no sum when a name is unknown. -/
def sumNamed (c : Config) (names : String) : Activity Series :=
  if Text.isBlankText names then sum c Component.all
  else match Component.selection names with
    | .ok ks => sum c ks
    | .error f => do
      .log sumContext .warn f.message
      return .empty

/-- The cost of drawing `watts` from `start` to `stop` at the sum of all components. -/
def cost (c : Config) (start stop : Instant) (watts : Decimal) : Activity Decimal := do
  let prices ← sum c Component.all
  let cost ← .lift (Cost.ofInterval prices start stop watts)
  match costEvent? cost with
  | some e => .emit (.log e)
  | none => pure ()
  return cost.value

end Query

end HourlyPrices
