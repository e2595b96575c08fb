import HourlyPrices.Fault
import HourlyPrices.Text.Blank
import HourlyPrices.Zone.Basic

/-!
# Price components and channels

The hourly price of electricity is the sum of five components, published on their own: the spot
price and four tariffs. Consumers subscribe to channels: one for the current value of each component
and one for the curve of all future hours.
-/

namespace HourlyPrices

/-- The zone by whose clock spot prices are published and tariffs are valid. -/
def marketZone : Zone := .cet

/-- A component of the hourly price. -/
inductive Component where
  | spotPrice
  | netTariff
  | systemTariff
  | electricityTax
  | transmissionNetTariff
  deriving DecidableEq

/-- What consumers can subscribe to. -/
inductive Channel where
  | current (component : Component)
  | hourlyPrices
  deriving DecidableEq

namespace Component

/-- All components, in the order in which they are fetched and published. -/
def all : List Component :=
  [spotPrice, netTariff, systemTariff, electricityTax, transmissionNetTariff]

theorem mem_all (c : Component) : c ∈ all := by
  cases c <;> decide

/-- The name by which a component is selected. -/
def name : Component → String
  | spotPrice => "spotprice"
  | netTariff => "nettariff"
  | systemTariff => "systemtariff"
  | electricityTax => "electricitytax"
  | transmissionNetTariff => "transmissionnettariff"

/-- The names of all components. -/
def acceptedNames : String := ", ".intercalate (all.map name)

/-- The component of a name, without regard to case and surrounding blanks. Folding the case of
ASCII letters suffices: no other character has a small letter that occurs in a name. -/
def ofName (s : String) : Except Fault Component :=
  let wanted := (Text.trimChars s.toList).map Text.lowerAscii
  match all.find? (·.name.toList == wanted) with
  | some c => .ok c
  | none => .error (.unknownElement s acceptedNames)

/-- The components of comma-separated names, in the order of `all` and each once. -/
def selection (names : String) : Except Fault (List Component) := do
  let cs ← (names.splitOn ",").mapM ofName
  return all.filter (· ∈ cs)

/-- Whether the component is a tariff. -/
def isTariff (c : Component) : Bool := c != spotPrice

/-- The zone by whose days a component is published. -/
def zone (_ : Component) : Zone := marketZone

end Component

namespace Channel

/-- All channels. -/
def all : List Channel := Component.all.map current ++ [hourlyPrices]

/-- The name of a channel. -/
def id : Channel → String
  | current .spotPrice => "electricity#current-spot-price"
  | current .netTariff => "electricity#current-net-tariff"
  | current .systemTariff => "electricity#current-system-tariff"
  | current .electricityTax => "electricity#current-electricity-tax"
  | current .transmissionNetTariff => "electricity#current-transmission-net-tariff"
  | hourlyPrices => "electricity#hourly-prices"

/-- The channel of a name. -/
def ofId? (s : String) : Option Channel := all.find? (·.id == s)

/-- The component whose current value a channel carries. -/
def component? : Channel → Option Component
  | current c => some c
  | hourlyPrices => none

end Channel

end HourlyPrices
