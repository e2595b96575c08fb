import HourlyPrices.Component
import HourlyPrices.Series

/-!
# The cache

The cache holds a series for each component. It answers what is known now and ahead, and drops
the hours that have passed; of the spot price it may keep a window of past hours.
-/

namespace HourlyPrices

/-- How long past hours are kept. -/
structure Retention where
  /-- The depth of the window of past hours. -/
  historicHours : Nat := 24
  /-- Whether that window of spot prices is kept. -/
  keepHistoricSpot : Bool := false
  deriving DecidableEq

/-- A series for each component. -/
structure Cache where
  spotPrice : Series := .empty
  netTariff : Series := .empty
  systemTariff : Series := .empty
  electricityTax : Series := .empty
  transmissionNetTariff : Series := .empty
  deriving DecidableEq

namespace Cache

/-- The cache without prices. -/
def empty : Cache := {}

/-- The series of a component. -/
def get (c : Cache) : Component → Series
  | .spotPrice => c.spotPrice
  | .netTariff => c.netTariff
  | .systemTariff => c.systemTariff
  | .electricityTax => c.electricityTax
  | .transmissionNetTariff => c.transmissionNetTariff

/-- Replaces the series of a component. -/
def put (c : Cache) (k : Component) (s : Series) : Cache :=
  match k with
  | .spotPrice => { c with spotPrice := s }
  | .netTariff => { c with netTariff := s }
  | .systemTariff => { c with systemTariff := s }
  | .electricityTax => { c with electricityTax := s }
  | .transmissionNetTariff => { c with transmissionNetTariff := s }

/-- Changes the series of every component. -/
def map (c : Cache) (f : Component → Series → Series) : Cache where
  spotPrice := f .spotPrice c.spotPrice
  netTariff := f .netTariff c.netTariff
  systemTariff := f .systemTariff c.systemTariff
  electricityTax := f .electricityTax c.electricityTax
  transmissionNetTariff := f .transmissionNetTariff c.transmissionNetTariff

theorem get_put (c : Cache) (k l : Component) (s : Series) :
    (c.put k s).get l = if l = k then s else c.get l := by
  cases k <;> cases l <;> rfl

@[simp] theorem get_map (c : Cache) (f : Component → Series → Series) (k : Component) :
    (c.map f).get k = f k (c.get k) := by
  cases k <;> rfl

@[simp] theorem get_empty (k : Component) : empty.get k = .empty := by
  cases k <;> rfl

theorem ext_get {a b : Cache} (h : ∀ k, a.get k = b.get k) : a = b := by
  obtain ⟨a₁, a₂, a₃, a₄, a₅⟩ := a
  obtain ⟨b₁, b₂, b₃, b₄, b₅⟩ := b
  simp only [mk.injEq]
  exact ⟨h .spotPrice, h .netTariff, h .systemTariff, h .electricityTax, h .transmissionNetTariff⟩

/-! ## What is known -/

/-- The price in the hour of an instant. -/
def valueAt? (c : Cache) (k : Component) (t : Instant) : Option Decimal :=
  (c.get k).get? t.hourStart

/-- The number of hours known from the current one on. -/
def lookahead (c : Cache) (k : Component) (now : Instant) : Nat :=
  (c.get k).countHours fun h => now.hourStart ≤ h

/-- Whether as many hours are known from the current one to the end of tomorrow as there are. This
is meant for clocks up to two days before the last day: then the end of tomorrow lies ahead. -/
def coversTomorrow (c : Cache) (k : Component) (now : Instant) : Bool :=
  let start := now.hourStart
  let stop := k.zone.endOfTomorrow now
  let expected := ((stop.since start).seconds.tdiv secondsPerHour).toNat
  (c.get k).countHours (fun h => start ≤ h ∧ h < stop) == expected

/-- The start of the window of past hours. -/
def historicStart (r : Retention) (now : Instant) : Except Overflow Instant :=
  Overflow.time.unless (now.hourStart.add? (Span.ofHours (-(r.historicHours : Int))))

/-- Whether the first known hour lies at or before the start of the window of past hours. -/
def coversHistory (c : Cache) (r : Retention) (k : Component) (now : Instant) :
    Except Overflow Bool := do
  let start ← historicStart r now
  return match (c.get k).firstHour? with
    | some first => first ≤ start
    | none => false

/-! ## Dropping past hours -/

/-- The first hour of a component that is kept. -/
def cutoff (r : Retention) (k : Component) (now : Instant) : Except Overflow Instant :=
  if k = .spotPrice ∧ r.keepHistoricSpot then historicStart r now else .ok now.hourStart

/-- Drops the hours that are no longer kept. -/
def cleanup (c : Cache) (r : Retention) (now : Instant) : Except Overflow Cache := do
  let spot ← cutoff r .spotPrice now
  return c.map fun k s => s.dropBefore (if k = .spotPrice then spot else now.hourStart)

end Cache

end HourlyPrices
