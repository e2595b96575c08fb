import HourlyPrices.Currency
import HourlyPrices.Dataset.Filter
import HourlyPrices.Json.Basic
import HourlyPrices.Tariff.Record

/-!
# Requests for records

A request for spot prices or for tariffs is sent as a list of parameters. The selection is one of
them: a JSON object without blanks, with its keys in order.
-/

namespace HourlyPrices

/-- A request for spot prices. -/
structure SpotQuery where
  area : String
  currency : Currency
  start : Start
  deriving DecidableEq

/-- A request for the tariffs of a charge owner. -/
structure TariffQuery where
  gln : Gln
  filter : TariffFilter
  deriving DecidableEq

/-- A parameter of a request: its name and its value. -/
abbrev Parameter := String × String

/-- The parameter of a start, unless it is empty. -/
def Start.parameters (s : Start) : List Parameter :=
  if s.isEmpty then [] else [("start", s.toText)]

namespace SpotQuery

/-- The selection of a request. -/
def selection (q : SpotQuery) : Json := .object [("PriceArea", .string q.area)]

/-- The parameters of a request. -/
def parameters (q : SpotQuery) : List Parameter :=
  q.start.parameters ++
    [("filter", q.selection.toText), ("columns", "HourUTC,SpotPrice" ++ q.currency.code)]

end SpotQuery

namespace TariffQuery

/-- The charge type of tariffs, as opposed to subscriptions and fees. -/
def chargeType : String := "D03"

/-- A member that lists a set of texts, left out when the set is empty. -/
def setMember (key : String) (s : TextSet) : List (String × Json) :=
  if s.isEmpty then [] else [(key, .array (s.items.map .string))]

/-- The selection of a request. -/
def selection (q : TariffQuery) : Json :=
  .object
    (("ChargeType", .array [.string chargeType]) ::
      setMember "ChargeTypeCode" q.filter.codes ++
      ("GLN_Number", .array [.string q.gln.text]) ::
      setMember "Note" q.filter.notes)

/-- The name of the price column with this number. -/
def priceColumn (n : Nat) : String := "Price" ++ toString n

/-- The columns of a price list. -/
def columns : List String :=
  ["ValidFrom", "ValidTo", "ChargeTypeCode"] ++
    (List.range TariffRecord.priceColumns).map fun i => priceColumn (i + 1)

/-- The parameters of a request. -/
def parameters (q : TariffQuery) : List Parameter :=
  [("filter", q.selection.toText), ("columns", ",".intercalate columns)] ++
    q.filter.start.parameters

end TariffQuery

end HourlyPrices
