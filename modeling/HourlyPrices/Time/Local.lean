import HourlyPrices.Time.Date
import HourlyPrices.Time.Instant

/-!
# Times of day and local times

What a clock on the wall shows: a time of day, or a date with a time of day. A local time is
counted like an instant, from the start of 1970 on the same wall.
-/

namespace HourlyPrices

/-- The nanoseconds on a clock stay below two seconds, since a leap second belongs to the second
before it. -/
abbrev clockNanos : Nat := 2 * nanosPerSecond

/-- A time of day: seconds from midnight, and nanoseconds, which reach `10 ^ 9` within a leap
second. -/
structure TimeOfDay where
  seconds : Nat
  nanos : Nat := 0
  seconds_lt : seconds < secondsPerDay := by decide
  nanos_lt : nanos < clockNanos := by decide
  deriving DecidableEq

namespace TimeOfDay

/-- The start of the day. -/
def midnight : TimeOfDay := { seconds := 0 }

/-- Times of day are ordered by their seconds and then by their nanoseconds. -/
protected def le (a b : TimeOfDay) : Prop :=
  a.seconds < b.seconds ∨ (a.seconds = b.seconds ∧ a.nanos ≤ b.nanos)

instance : LE TimeOfDay := ⟨TimeOfDay.le⟩
instance (a b : TimeOfDay) : Decidable (a ≤ b) :=
  inferInstanceAs (Decidable (a.seconds < b.seconds ∨ (a.seconds = b.seconds ∧ a.nanos ≤ b.nanos)))

/-- The hour from 0 to 23. -/
def hour (t : TimeOfDay) : Nat := t.seconds / 3600

/-- The minute of the hour. -/
def minute (t : TimeOfDay) : Nat := t.seconds / 60 % 60

/-- The second of the minute, 60 within a leap second. -/
def second (t : TimeOfDay) : Nat := t.seconds % 60 + t.nanos / nanosPerSecond

/-- The nanosecond of the second. -/
def subNanos (t : TimeOfDay) : Nat := t.nanos % nanosPerSecond

/-- The time of day with these parts; second 60 is a leap second. -/
def ofParts? (hour minute second nanos : Nat) : Option TimeOfDay :=
  if h : hour < 24 ∧ minute < 60 ∧ second ≤ 60 ∧ nanos < nanosPerSecond then
    some
      { seconds := hour * 3600 + minute * 60 + min second 59
        nanos := nanos + (if second = 60 then nanosPerSecond else 0)
        seconds_lt := by
          simp only [secondsPerDay]
          omega
        nanos_lt := by
          obtain ⟨-, -, -, h⟩ := h
          simp only [clockNanos]
          split <;> omega }
  else none

end TimeOfDay

/-- A date with a time of day, as seconds from the start of 1970 on the same wall. -/
structure LocalTime where
  seconds : Int
  nanos : Nat := 0
  nanos_lt : nanos < clockNanos := by decide
  deriving DecidableEq

namespace LocalTime

/-- A time of day on the day with this number. -/
def ofDay (day : Int) (t : TimeOfDay) : LocalTime where
  seconds := day * secondsPerDay + t.seconds
  nanos := t.nanos
  nanos_lt := t.nanos_lt

/-- A time of day on a date. -/
def ofDate (d : Date) (t : TimeOfDay) : LocalTime := ofDay d.dayNumber t

/-- The number of the day. -/
def day (t : LocalTime) : Int := t.seconds / secondsPerDay

/-- The date. -/
def date (t : LocalTime) : Date := Date.ofDayNumber t.day

/-- The time of day. -/
def timeOfDay (t : LocalTime) : TimeOfDay where
  seconds := (t.seconds % secondsPerDay).toNat
  nanos := t.nanos
  seconds_lt := by
    simp only [secondsPerDay]
    omega
  nanos_lt := t.nanos_lt

/-- The local time read as an instant of UTC. -/
def asUtc (t : LocalTime) : Instant := ⟨t.seconds, t.nanos, t.nanos_lt⟩

/-- What the wall clock of UTC shows at an instant. -/
def ofUtc (t : Instant) : LocalTime := ⟨t.seconds, t.nanos, t.nanos_lt⟩

/-- The local time `d` later on the same wall. -/
def shift (t : LocalTime) (d : Span) : LocalTime := ofUtc (t.asUtc.shift d)

theorem day_ofDay (n : Int) (t : TimeOfDay) : (ofDay n t).day = n := by
  have := t.seconds_lt
  simp only [day, ofDay, secondsPerDay] at *
  omega

theorem timeOfDay_ofDay (n : Int) (t : TimeOfDay) : (ofDay n t).timeOfDay = t := by
  have := t.seconds_lt
  have h : (n * secondsPerDay + (t.seconds : Int)) % secondsPerDay = t.seconds := by
    simp only [secondsPerDay] at *
    omega
  simp only [timeOfDay, ofDay, h, Int.toNat_natCast]

end LocalTime

end HourlyPrices
