import HourlyPrices.Component
import HourlyPrices.Decimal.Text
import HourlyPrices.Log.Event
import HourlyPrices.Status

/-!
# Publications

What the service hands to its consumers: the current value of a component, the curve of future
prices, the status, and properties such as the time of the next refresh. A publication can also be
written to the log.
-/

namespace HourlyPrices

/-- Something that consumers get to see. -/
inductive Publication where
  /-- The current value of a component, if there is one. -/
  | currentValue (component : Component) (value : Option Decimal)
  /-- The text of the curve of future prices. -/
  | futurePrices (text : String)
  | status (status : ServiceStatus)
  | property (key value : String)
  deriving DecidableEq

namespace Publication

/-- The context of publications in the log. -/
def context : LogContext := { component := "sink" }

/-- A publication as an event of the log. -/
def toEvent : Publication → LogEvent
  | currentValue c v =>
    context.event .info
      ((Channel.current c).id ++ " = " ++ match v with | some d => d.toText | none => "UNDEF")
  | futurePrices text => context.event .debug (Channel.hourlyPrices.id ++ " = " ++ text)
  | status s =>
    let level := match s with
      | .offline _ _ => LogLevel.warn
      | _ => .info
    context.event level ("Status " ++ s.toText)
  | property k v => context.event .debug ("Property " ++ k ++ " = " ++ v)

end Publication

end HourlyPrices
