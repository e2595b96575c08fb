import HourlyPrices.Dataset.Records

/-!
# The source of records

Records are requested for one component at a time. An answer holds them, or says why there are none.
The source may also know how many calls it still accepts.
-/

namespace HourlyPrices

/-- What the source says about its quota of calls. -/
structure ApiUsage where
  remainingCalls : Option Nat := none
  totalCalls : Option Nat := none
  lastCall : Option Instant := none
  deriving DecidableEq

/-- A request for the records of a component. -/
inductive Request where
  | spot (query : SpotQuery)
  | tariffs (component : Component) (query : TariffQuery)
  deriving DecidableEq

namespace Request

/-- The component for which records are requested. -/
def component : Request → Component
  | spot _ => .spotPrice
  | tariffs c _ => c

/-- The records that are requested. -/
abbrev Record : Request → Type
  | spot _ => SpotRecord
  | tariffs _ _ => TariffRecord

/-- An answer to a request. -/
abbrev Answer (r : Request) : Type := Except Fault (List r.Record)

end Request

/-- A source answers every request. -/
abbrev Source : Type := (r : Request) → r.Answer

end HourlyPrices
