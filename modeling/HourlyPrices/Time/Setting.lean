import HourlyPrices.Fault
import HourlyPrices.Time.Pattern
import HourlyPrices.Zone.Basic

/-!
# Times of day and zones in settings

A time of day is set as `HH:MM` or `HH:MM:SS`, a zone by its name.
-/

namespace HourlyPrices

/-- Reads a time of day. The fault is that of the longer form. -/
def TimeOfDay.ofText (s : String) : Except Fault TimeOfDay :=
  match Time.readTimeOfDay Time.hourMinute s.toList with
  | .ok t => .ok t
  | .error _ =>
    match Time.readTimeOfDay Time.hourMinuteSecond s.toList with
    | .ok t => .ok t
    | .error e => .error (.validation "time_of_day" ("'" ++ s ++ "': " ++ e.message))

/-- Reads a zone. -/
def Zone.ofText (s : String) : Except Fault Zone :=
  match Zone.ofName? s with
  | some z => .ok z
  | none => .error (.validation "timezone" ("'" ++ s ++ "': failed to parse timezone"))

end HourlyPrices
