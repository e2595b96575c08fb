import HourlyPrices.Fault
import HourlyPrices.Series
import HourlyPrices.Tariff.Record
import HourlyPrices.Zone.Basic

/-!
# Tariffs by the hour

Records give a price to each clock hour of a window in which they are valid. The values of a record
are counted from the start of the local day, or on its first day from the start of validity; hours
past its last value get none. Where records overlap, the last one that gives a price counts.

What a window comes to is stated first without regard to the range (`hourlyBetween`). The loop that
goes through the hours (`expandBetween`) comes to the same, unless it has to go on from the last
hour that is representable.
-/

namespace HourlyPrices

/-- The instants `start`, an hour later, and so on, before `stop`. -/
def hoursBetween (start stop : Instant) : List Instant :=
  let last := if start.nanos < stop.nanos then stop.seconds + 1 else stop.seconds
  let count := (last - start.seconds + secondsPerHour - 1) / secondsPerHour
  (List.range count.toNat).map fun i : Nat =>
    ⟨start.seconds + i * secondsPerHour, start.nanos, start.nanos_lt⟩

/-- The first clock hour that starts at or after the start of validity, and not before the hour of
`start`, without regard to the range. -/
def firstValidHour (valid start : Instant) : Instant :=
  let h := (Instant.latest valid start).hourStart
  if h < valid then h.shift (Span.ofHours 1) else h

namespace TariffRecord

/-- The start of validity as an instant. -/
def startIn (r : TariffRecord) (zone : Zone) : Instant := zone.instantOf r.validFrom

/-- Whole hours from the later of local midnight and the start of validity to an hour. -/
def hourIndex (zone : Zone) (valid hour : Instant) : Nat :=
  let dayStart := Instant.latest (zone.midnight (zone.dayAt hour)) valid
  ((hour.since dayStart).seconds.tdiv secondsPerHour).toNat

/-- The end of validity as an instant, but not after `stop`. -/
def stopIn (r : TariffRecord) (zone : Zone) (stop : Instant) : Instant :=
  match r.validTo with
  | none => stop
  | some l => Instant.earliest (zone.instantOf l) stop

/-- The clock hours of the window from `start` to `stop` in which the record is valid. -/
def validHours (r : TariffRecord) (zone : Zone) (start stop : Instant) : List Instant :=
  hoursBetween (firstValidHour (r.startIn zone) start) (r.stopIn zone stop)

/-- The price that a record gives to an hour. -/
def priceAt? (r : TariffRecord) (zone : Zone) (hour : Instant) : Option Decimal :=
  r.value? (hourIndex zone (r.startIn zone) hour)

/-- The prices that a record gives to the hours of a window. -/
def pricesBetween (r : TariffRecord) (zone : Zone) (start stop : Instant) :
    List (Instant × Decimal) :=
  (r.validHours zone start stop).filterMap fun h => (r.priceAt? zone h).map (h, ·)

end TariffRecord

/-- The hourly series of some records in the window from `start` to `stop`. -/
def hourlyBetween (zone : Zone) (records : List TariffRecord) (start stop : Instant) : Series :=
  Series.ofList (records.flatMap (·.pricesBetween zone start stop))

/-- The hourly series of some records from the current hour to the end of tomorrow. -/
def hourly (zone : Zone) (records : List TariffRecord) (now : Instant) : Series :=
  hourlyBetween zone records now.hourStart (zone.endOfTomorrow now)

/-! ## Going through the hours -/

namespace TariffRecord

/-- The first clock hour of the window from `start` on in which the record is valid. -/
def firstHour (r : TariffRecord) (zone : Zone) (start : Instant) : Except Overflow Instant :=
  let h := (Instant.latest (r.startIn zone) start).hourStart
  if h < r.startIn zone then Overflow.time.unless h.nextHour? else .ok h

/-- Sets the price that a record gives to an hour, if it gives one, and goes on to the next hour.
The date of the hour by the clock of the zone has to be representable, and so has the next hour. -/
def addHour (r : TariffRecord) (zone : Zone) (s : Series) (h : Instant) :
    Except Overflow Series := do
  let _ ← Overflow.time.unless (zone.localTime? h)
  let _ ← Overflow.time.unless h.nextHour?
  return match r.priceAt? zone h with
    | some p => s.insert h p
    | none => s

/-- Sets the prices that a record gives to the hours of a window. A record without values is passed
over. -/
def addHours (r : TariffRecord) (zone : Zone) (start stop : Instant) (s : Series) :
    Except Overflow Series :=
  if r.prices.isEmpty then .ok s
  else do
    let first ← r.firstHour zone start
    (hoursBetween first (r.stopIn zone stop)).foldlM (r.addHour zone) s

end TariffRecord

/-- Goes through the hours of the window from `start` to `stop` for one record after the other. -/
def expandBetween (zone : Zone) (records : List TariffRecord) (start stop : Instant) :
    Except Overflow Series :=
  records.foldlM (fun s r => r.addHours zone start stop s) .empty

/-- Goes through the hours from the current one to the end of tomorrow. -/
def expand (zone : Zone) (records : List TariffRecord) (now : Instant) : Except Overflow Series :=
  expandBetween zone records now.hourStart (zone.endOfTomorrow now)

end HourlyPrices
