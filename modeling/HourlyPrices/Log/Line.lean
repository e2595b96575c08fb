import HourlyPrices.Json.Basic
import HourlyPrices.Log.Event
import HourlyPrices.Time.Text

/-!
# Lines of the log

An event is written as a line with the time, either as text or as a JSON object.
-/

namespace HourlyPrices

namespace LogEvent

/-- An event as a line of text. -/
def textLine (e : LogEvent) (time : Instant) : String :=
  let level := e.level.name
  time.toText ++ String.ofList (List.replicate (6 - level.length) ' ') ++ level ++ " " ++ e.toText

/-- An event as a JSON object. -/
def toJson (e : LogEvent) (time : Instant) : Json :=
  .object
    [("timestamp", .string time.toText), ("level", .string e.level.name),
     ("fields", .object (("message", .string e.message) ::
        (e.fields.map fun f => ("fields", Json.string f)).toList))]

/-- An event as a line of the log. -/
def toLine (asJson : Bool) (time : Instant) (e : LogEvent) : String :=
  if asJson then (e.toJson time).toText else e.textLine time

end LogEvent

end HourlyPrices
