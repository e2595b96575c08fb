import HourlyPrices.Config.Basic
import HourlyPrices.Service.Activity
import HourlyPrices.Tariff.Hourly

/-!
# Downloads

A download requests the records of a component and puts the series that they make into the cache.
Spot prices are requested from now on, or, when a window of past hours is kept and not yet known,
from the start of that window on. Tariffs are requested from the party that charges them.
-/

namespace HourlyPrices

namespace Config

/-- The context of downloads and queries in the log. -/
def serviceContext (c : Config) : LogContext :=
  { component := "service", priceArea := some c.service.priceArea }

/-- The party that charges a component. -/
def chargeOwner (c : Config) : Component → Gln
  | .netTariff => .ofText c.service.gridCompanyGln
  | _ => .ofText c.service.energinetGln

/-- The request for a tariff; there is none for the spot price, nor without a party that charges the
tariff. -/
def tariffQuery? (c : Config) (k : Component) : Option TariffQuery :=
  let gln := c.chargeOwner k
  if gln.isEmpty then none
  else (TariffFilter.default? k (.ofText c.service.gridCompanyGln)).map fun filter =>
    ⟨gln, if k = .netTariff then filter.overriddenBy c.service.netTariffFilter else filter⟩

/-- Whether spot prices have to be requested with past hours. -/
def wantsHistory (c : Config) (cache : Cache) (now : Instant) : Except Overflow Bool :=
  if c.cache.keepHistoricSpot then
    return !(← cache.coversHistory c.cache .spotPrice now)
  else .ok false

/-- The start from which spot prices are requested. -/
def spotStart (c : Config) (history : Bool) : Start :=
  .anchored .utcNow
    (if history then some ⟨.hours, -(c.cache.historicHours : Int)⟩ else none)

/-- The request for spot prices. -/
def spotQuery (c : Config) (history : Bool) : SpotQuery :=
  ⟨c.service.priceArea, c.service.currency, c.spotStart history⟩

/-- Whether a component is not known as far as it should be. -/
def needsDownload (c : Config) (cache : Cache) (k : Component) (now : Instant) :
    Except Overflow Bool := do
  if k = .spotPrice then
    if ← c.wantsHistory cache now then return true
  return !cache.coversTomorrow k now

end Config

/-- The past hours of one series, before `hour`, with all hours of another over them. -/
def Series.withPast (received cached : Series) (hour : Instant) : Series :=
  (cached.filterHours (· < hour)).insertAll received.entries

namespace Download

/-- Downloads spot prices. The hours of the answer take the place of all that is cached; only past
hours stay, when they are kept and the answer was not asked for them. -/
def spot (c : Config) : Activity (Except Fault Nat) := do
  let history ← .lift (c.wantsHistory (← .cached) (← .view).now)
  let query := c.spotQuery history
  match ← .ask (.spot query) with
  | .error f => return .error f
  | .ok records =>
    let received ← .lift (SpotRecord.seriesPerKwh records query.currency)
    let hour := (← .view).now.hourStart
    let cache ← .cached
    let series :=
      if c.cache.keepHistoricSpot && !history then received.withPast (cache.get .spotPrice) hour
      else received
    .log c.serviceContext .debug
      s!"Received {records.length} spot price records ({query.start.toText})"
    .store (cache.put .spotPrice series)
    return .ok records.length

/-- Downloads a tariff. Records that ended before the current hour are left aside. The series is
stated without regard to the range: for clocks up to two days before the last day, the loop over the
hours does not leave it (`expand_eq_hourly`). -/
def tariff (c : Config) (k : Component) : Activity (Except Fault Nat) := do
  match c.tariffQuery? k with
  | none =>
    .log c.serviceContext .debug s!"No charge owner configured for {k.name}, skipping"
    return .ok 0
  | some query =>
    let now := (← .view).now
    match ← .ask (.tariffs k query) with
    | .error f => return .error f
    | .ok records =>
      let records := records.filter (·.endsAfter (marketZone.localTime now.hourStart))
      let series := hourly marketZone records now
      .log c.serviceContext .debug
        s!"Received {records.length} {k.name} records covering {series.size} hours"
      .store ((← .cached).put k series)
      return .ok records.length

/-- Downloads a component, and says how many records there were. -/
def component (c : Config) (k : Component) : Activity (Except Fault Nat) :=
  if k = .spotPrice then spot c else tariff c k

end Download

end HourlyPrices
