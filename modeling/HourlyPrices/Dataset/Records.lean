import HourlyPrices.Currency
import HourlyPrices.Dataset.Query
import HourlyPrices.Decimal.Text
import HourlyPrices.Json.Fields
import HourlyPrices.Series
import HourlyPrices.Time.Pattern

/-!
# Answers of the data sets

An answer is a JSON record with the number of records that exist and that were asked for, the name
of the data set and the records, some of which may be `null`. Spot prices come per megawatt-hour in
two currencies; tariffs come with a column for each hour of the day.
-/

namespace HourlyPrices

/-- An answer of a data set. -/
structure Envelope (α : Type) where
  total : Nat := 0
  limit : Nat := 0
  dataset : String := ""
  records : List (Option α) := []

namespace Envelope

/-- Whether there are more records than were returned. -/
def isTruncated {α : Type} (e : Envelope α) : Bool := 0 < e.limit && e.limit < e.total

/-- The records that are not `null`. -/
def present {α : Type} (e : Envelope α) : List α := e.records.filterMap id

/-- Counters are below this bound. -/
def counterBound : Nat := UInt64.size

/-- Reads an answer, given how a record is read. -/
def ofJson? {α : Type} (record : Json → Option α) (v : Json) : Option (Envelope α) := do
  match ← v.fields? ["total", "limit", "dataset", "records"] with
  | [total, limit, dataset, records] =>
    return {
      total := ← Json.defaulted 0 (Json.natural? counterBound) total
      limit := ← Json.defaulted 0 (Json.natural? counterBound) limit
      dataset := ← Json.defaulted "" Json.text? dataset
      records := ← Json.defaulted [] (Json.items? (Json.nullable? record)) records }
  | _ => none

/-- Reads the body of an answer. -/
def ofBody {α : Type} (record : Json → Option α) (body : String) : Except Fault (Envelope α) :=
  if Text.isBlankText body then .error (.empty "Empty response")
  else match (Json.ofText? body).bind (ofJson? record) with
    | some e => .ok e
    | none => .error (.parse "Error parsing response")

end Envelope

/-- A price in an answer: a number, or a string that holds one. -/
def Decimal.ofJson? : Json → Option Decimal
  | .number text => Decimal.ofAnyText? text
  | .string s => Decimal.ofAnyText? s
  | _ => none

/-! ## Spot prices -/

/-- The spot price of one hour, per megawatt-hour. -/
structure SpotRecord where
  hour : Instant
  dkk : Option Decimal := none
  eur : Option Decimal := none
  deriving DecidableEq

namespace SpotRecord

/-- Reads the instant of a record: a date and time of UTC, which any number of `Z` may follow. -/
def readHour (s : String) : Except Fault Instant :=
  let cs := Text.dropEndWhile (· == 'Z') (Text.trimChars s.toList)
  match Time.readLocalTime Time.dateTime cs with
  | .ok l => .ok l.asUtc
  | .error e => .error (.parse ("Invalid HourUTC '" ++ s ++ "': " ++ e.message))

/-- Reads a record. -/
def ofJson? (v : Json) : Option SpotRecord := do
  match ← v.fields? ["HourUTC", "SpotPriceDKK", "SpotPriceEUR"] with
  | [hour, dkk, eur] =>
    return {
      hour := ← (readHour (← Json.required Json.text? hour)).toOption
      dkk := ← Json.defaulted none (Json.nullable? Decimal.ofJson?) dkk
      eur := ← Json.defaulted none (Json.nullable? Decimal.ofJson?) eur }
  | _ => none

/-- The price in a currency. -/
def price? (r : SpotRecord) : Currency → Option Decimal
  | .dkk => r.dkk
  | .eur => r.eur

/-- Kilowatt-hours in a megawatt-hour. -/
def kwhPerMwh : Nat := 1000

/-- The prices per kilowatt-hour that some records give in a currency. -/
def pricesPerKwh (records : List SpotRecord) (currency : Currency) :
    Except Overflow (List (Instant × Decimal)) :=
  (records.filterMap fun r => (r.price? currency).map (r.hour, ·)).mapM fun (hour, price) => do
    return (hour, ← Overflow.decimal.unless (price.divNat? kwhPerMwh))

/-- The series per kilowatt-hour in a currency; of several records for an hour the last counts. -/
def seriesPerKwh (records : List SpotRecord) (currency : Currency) : Except Overflow Series := do
  return .ofList (← pricesPerKwh records currency)

end SpotRecord

/-! ## Tariffs -/

namespace TariffRecord

/-- Removes the letters `Price` from the front. -/
def afterPrice? : List Char → Option (List Char)
  | 'P' :: 'r' :: 'i' :: 'c' :: 'e' :: cs => some cs
  | _ => none

/-- The number of the price column with this name, from 0. A plus sign and leading zeros may stand
before the number. -/
def columnIndex? (key : String) : Option Nat := do
  let n ← Decimal.exponentValue? (← afterPrice? key.toList)
  if 1 ≤ n ∧ n ≤ priceColumns then some (n - 1) else none

/-- A record whose members are still being read. -/
structure Draft where
  validFrom : Option LocalTime := none
  validTo : Option LocalTime := none
  code : String := ""
  prices : List (Option Decimal) := List.replicate priceColumns none

/-- Reads a local time. -/
def localTime? (v : Json) : Option LocalTime := do
  (Time.readLocalTime Time.spacedDateTime (← v.text?).toList).toOption

/-- Takes one member; a member that comes again replaces the one before. -/
def Draft.take (d : Draft) (key : String) (v : Json) : Option Draft :=
  if key = "ValidFrom" then do return { d with validFrom := some (← localTime? v) }
  else if key = "ValidTo" then do return { d with validTo := ← Json.nullable? localTime? v }
  else if key = "ChargeTypeCode" then do
    return { d with code := (← Json.nullable? Json.text? v).getD "" }
  else match columnIndex? key with
    | some i => do return { d with prices := d.prices.set i (← Json.nullable? Decimal.ofJson? v) }
    | none => some d

/-- Reads a record. -/
def ofJson? : Json → Option TariffRecord
  | .object members => do
    let d ← members.foldlM (fun d m => d.take m.1 m.2) ({} : Draft)
    return ofPrices (← d.validFrom) d.validTo d.code d.prices
  | _ => none

end TariffRecord

end HourlyPrices
