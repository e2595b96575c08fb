import HourlyPrices.Cache
import HourlyPrices.Dataset.Records
import HourlyPrices.Time.Text

/-!
# Future prices

The curve of future prices is published as a JSON array with an object for each hour of the spot
price: the hour, the spot price and its currency, and the tariffs as far as they are known. Prices
are JSON numbers with all their digits.
-/

namespace HourlyPrices

/-- The prices of one hour as they are published. -/
structure FuturePrice where
  hourStart : String
  spotPrice : Decimal
  currency : String
  netTariff : Option Decimal := none
  systemTariff : Option Decimal := none
  electricityTax : Option Decimal := none
  transmissionNetTariff : Option Decimal := none
  deriving DecidableEq

namespace FuturePrice

/-- An hour with its spot price alone. -/
def ofSpot (hour : Instant) (spot : Decimal) (currency : Currency) : FuturePrice :=
  { hourStart := hour.toSecondText, spotPrice := spot, currency := currency.code }

/-- Sets the value of a component. The spot price cannot be taken away. -/
def set (p : FuturePrice) (c : Component) (value : Option Decimal) : FuturePrice :=
  match c with
  | .spotPrice => { p with spotPrice := value.getD p.spotPrice }
  | .netTariff => { p with netTariff := value }
  | .systemTariff => { p with systemTariff := value }
  | .electricityTax => { p with electricityTax := value }
  | .transmissionNetTariff => { p with transmissionNetTariff := value }

/-! ## Writing -/

/-- A price as a JSON number. -/
def priceJson (d : Decimal) : Json := .number d.toText

/-- A price, or `null` when there is none. -/
def optionalJson : Option Decimal → Json
  | some d => priceJson d
  | none => .null

/-- The object of an hour. -/
def toJson (p : FuturePrice) : Json :=
  .object
    [("hourStart", .string p.hourStart),
     ("spotPrice", priceJson p.spotPrice),
     ("spotPriceCurrency", .string p.currency),
     ("netTariff", optionalJson p.netTariff),
     ("systemTariff", optionalJson p.systemTariff),
     ("electricityTax", optionalJson p.electricityTax),
     ("transmissionNetTariff", optionalJson p.transmissionNetTariff)]

/-- The text of a curve. -/
def curveText (ps : List FuturePrice) : String := (Json.array (ps.map toJson)).toText

/-! ## Reading -/

/-- The fields of an hour. -/
def fieldNames : List String :=
  ["hourStart", "spotPrice", "spotPriceCurrency", "netTariff", "systemTariff", "electricityTax",
   "transmissionNetTariff"]

/-- Reads an hour; every field must be there. -/
def ofJson? (v : Json) : Option FuturePrice := do
  match ← v.fields? fieldNames with
  | [hour, spot, currency, net, system, tax, transmission] =>
    return {
      hourStart := ← Json.required Json.text? hour
      spotPrice := ← Json.required Decimal.ofJson? spot
      currency := ← Json.required Json.text? currency
      netTariff := ← Json.required (Json.nullable? Decimal.ofJson?) net
      systemTariff := ← Json.required (Json.nullable? Decimal.ofJson?) system
      electricityTax := ← Json.required (Json.nullable? Decimal.ofJson?) tax
      transmissionNetTariff := ← Json.required (Json.nullable? Decimal.ofJson?) transmission }
  | _ => none

/-! ## The curve of a cache -/

/-- The curve over the hours of the spot price in a cache. -/
def curve (cache : Cache) (currency : Currency) : List FuturePrice :=
  cache.spotPrice.entries.map fun (hour, spot) =>
    (Component.all.filter (·.isTariff)).foldl (fun p c => p.set c ((cache.get c).get? hour))
      (ofSpot hour spot currency)

end FuturePrice

end HourlyPrices
