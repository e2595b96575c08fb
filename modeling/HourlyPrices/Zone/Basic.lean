import HourlyPrices.Zone.Places

/-!
# Time zones

The named zones, what their clocks show at an instant and which instant a local time means. A time
that the clock shows twice means the earlier instant; a time that it never shows is moved forward.
-/

namespace HourlyPrices

/-- The zones with a name and an offset table. -/
inductive Zone where
  | cet | utc | copenhagen | newYork | kolkata | lordHowe | saoPaulo | apia
  | gmt | etcGmtPlus1 | usEastern | est5edt
  deriving DecidableEq

namespace Zone

/-- All zones. -/
def all : List Zone :=
  [cet, utc, copenhagen, newYork, kolkata, lordHowe, saoPaulo, apia, gmt, etcGmtPlus1, usEastern,
   est5edt]

/-- The name in the time zone database. -/
def name : Zone → String
  | cet => "CET"
  | utc => "UTC"
  | copenhagen => "Europe/Copenhagen"
  | newYork => "America/New_York"
  | kolkata => "Asia/Kolkata"
  | lordHowe => "Australia/Lord_Howe"
  | saoPaulo => "America/Sao_Paulo"
  | apia => "Pacific/Apia"
  | gmt => "GMT"
  | etcGmtPlus1 => "Etc/GMT+1"
  | usEastern => "US/Eastern"
  | est5edt => "EST5EDT"

/-- The zone of a name; capital and small letters differ. -/
def ofName? (s : String) : Option Zone := all.find? (·.name == s)

/-- How far the clocks of the zone are ahead of UTC. -/
def table : Zone → OffsetTable
  | cet | copenhagen => .centralEurope
  | utc | gmt => .fixed 0
  | newYork | usEastern | est5edt => .easternAmerica
  | kolkata => .india
  | lordHowe => .lordHowe
  | saoPaulo => .saoPaulo
  | apia => .apia
  | etcGmtPlus1 => .fixed (-3600)

/-- What the clock of the zone shows at an instant, without regard to the range. -/
def localTime (z : Zone) (t : Instant) : LocalTime :=
  ⟨t.seconds + z.table.offsetAt t.seconds, t.nanos, t.nanos_lt⟩

/-- What the clock of the zone shows at an instant, when it is representable. -/
def localTime? (z : Zone) (t : Instant) : Option LocalTime :=
  let l := z.localTime t
  if l.asUtc.inRange then some l else none

/-- The first instant at which the clock of the zone shows a local time, without regard to the
range. -/
def first? (z : Zone) (l : LocalTime) : Option Instant :=
  match z.table.showing l.seconds with
  | s :: _ => some ⟨s, l.nanos, l.nanos_lt⟩
  | [] => none

/-- The instant that a local time means: the first at which the clock shows it; when it never does,
the first at which it shows the time an hour later; when that is never shown either, that time
read as UTC. -/
def instantOf (z : Zone) (l : LocalTime) : Instant :=
  match z.first? l with
  | some t => t
  | none =>
    let later := l.shift (Span.ofHours 1)
    match z.first? later with
    | some t => t
    | none => later.asUtc

/-- The instant at which the day with this number starts. -/
def midnight (z : Zone) (day : Int) : Instant := z.instantOf (LocalTime.ofDay day .midnight)

/-- The number of the local day at an instant. -/
def dayAt (z : Zone) (t : Instant) : Int := (z.localTime t).day

/-- The last day number whose date is representable. -/
def lastDay : Int := Date.dayNumber ⟨Date.maxYear, 12, 31⟩

/-- The day some days later, or the day itself when that is not representable. -/
def daysLater (day : Int) (n : Nat) : Int := if day + n ≤ lastDay then day + n else day

/-- The midnight that ends the day after the local day of an instant. -/
def endOfTomorrow (z : Zone) (now : Instant) : Instant := z.midnight (daysLater (z.dayAt now) 2)

/-- The next instant after `now` that a time of day means: today's, or else tomorrow's. -/
def nextAt (z : Zone) (time : TimeOfDay) (now : Instant) : Instant :=
  let today := z.dayAt now
  let candidate := z.instantOf (.ofDay today time)
  if now < candidate then candidate else z.instantOf (.ofDay (daysLater today 1) time)

/-- Whether the clock of the zone has reached a time of day on the local day of `now`. -/
def hasReached (z : Zone) (time : TimeOfDay) (now : Instant) : Bool :=
  time ≤ (z.localTime now).timeOfDay

end Zone

end HourlyPrices
