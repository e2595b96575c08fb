import HourlyPrices.Log.Level

/-!
# Log events

An event carries a message and the context of the part of the service from which it comes: that
part's name, the price area, the refresh cycle and further fields in the order of their keys.
-/

namespace HourlyPrices

/-- Where an event comes from. -/
structure LogContext where
  component : String
  priceArea : Option String := none
  cycle : Option String := none
  /-- Further fields, by increasing key. -/
  extra : List (String × String) := []
  deriving DecidableEq

/-- An event of the log. An event without context comes from the log itself. -/
structure LogEvent where
  level : LogLevel
  fields : Option String
  message : String
  deriving DecidableEq

namespace LogContext

/-- Puts a field in its place, instead of a field with the same key. -/
def insertField (k v : String) : List (String × String) → List (String × String)
  | [] => [(k, v)]
  | (l, w) :: fs =>
    if k < l then (k, v) :: (l, w) :: fs
    else if k = l then (k, v) :: fs
    else (l, w) :: insertField k v fs

/-- The context with one more field. -/
def withField (c : LogContext) (k v : String) : LogContext :=
  { c with extra := insertField k v c.extra }

/-- The context in a refresh cycle. -/
def forCycle (c : LogContext) (cycle : String) : LogContext := { c with cycle := some cycle }

/-- The fields of a context as one text. -/
def fields (c : LogContext) : String :=
  let known := ("component", c.component) ::
    (c.priceArea.map ("price_area", ·)).toList ++ (c.cycle.map ("cycle_id", ·)).toList
  ",".intercalate ((known ++ c.extra).map fun (k, v) => k ++ "=" ++ v)

/-- An event in this context. -/
def event (c : LogContext) (level : LogLevel) (message : String) : LogEvent :=
  ⟨level, some c.fields, message⟩

end LogContext

namespace LogEvent

/-- The text of an event after its level. -/
def toText (e : LogEvent) : String :=
  match e.fields with
  | some f => e.message ++ " fields=" ++ f
  | none => e.message

end LogEvent

end HourlyPrices
