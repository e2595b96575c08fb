import HourlyPrices.Component
import HourlyPrices.Dataset.Start
import HourlyPrices.Gln
import HourlyPrices.Text.Set

/-!
# Tariff filters

A filter selects some of the records that a charge owner publishes, by charge type codes and notes,
from a start on. Each tariff has a default filter; that of the net tariff depends on the grid
company and may be overridden.
-/

namespace HourlyPrices

/-- A selection of tariff records. -/
structure TariffFilter where
  codes : TextSet := .empty
  notes : TextSet := .empty
  start : Start := .empty
  deriving DecidableEq

/-- A grid company and the codes of its consumer tariff. -/
structure GridCompany where
  gln : String
  name : String
  codes : List String

/-- The grid companies that are known. -/
def GridCompany.known : List GridCompany :=
  [⟨"5790000610099", "Radius Elnet", ["DT_C_01"]⟩,
   ⟨"5790000705184", "Cerius", ["30TR_C_ET"]⟩,
   ⟨"5790001089030", "N1", ["CD", "CD R"]⟩,
   ⟨"5790000392261", "Trefor El-net", ["C"]⟩,
   ⟨"5790000704842", "Konstant", ["151-NT01T", "151-NRA04T"]⟩]

/-- The known grid company with a number. -/
def GridCompany.ofGln? (g : Gln) : Option GridCompany := known.find? (·.gln == g.text)

namespace TariffFilter

/-- A filter of lists of codes and notes. -/
def of (codes notes : List String) (start : Start) : TariffFilter :=
  ⟨.ofList codes, .ofList notes, start⟩

/-- Neither codes nor notes. -/
def hasNoSelection (f : TariffFilter) : Bool := f.codes.isEmpty && f.notes.isEmpty

/-- Neither codes nor notes nor a start. -/
def isEmpty (f : TariffFilter) : Bool := f.hasNoSelection && f.start.isEmpty

/-- Applies an override: one with codes or notes takes the place of the filter, one with a start
alone changes only the start. -/
def overriddenBy (f : TariffFilter) : Option TariffFilter → TariffFilter
  | none => f
  | some o =>
    if o.isEmpty then f
    else if o.hasNoSelection then { f with start := o.start }
    else o

/-- The start of the default filters of the tariffs that do not depend on the grid company. -/
def commonStart : Start := .date ⟨2023, 1, 1⟩

/-- The filter of a tariff that is not overridden; the spot price has none. -/
def default? (c : Component) (gridCompany : Gln) : Option TariffFilter :=
  match c with
  | .spotPrice => none
  | .netTariff =>
    let codes := ((GridCompany.ofGln? gridCompany).map (·.codes)).getD []
    some (of codes [] (.anchored .startOfYear none))
  | .systemTariff => some (of ["41000"] ["Systemtarif"] commonStart)
  | .electricityTax => some (of ["EA-001"] ["Elafgift"] commonStart)
  | .transmissionNetTariff => some (of ["40000"] ["Transmissions nettarif"] commonStart)

end TariffFilter

end HourlyPrices
