import HourlyPrices.Fault
import HourlyPrices.Text.Uppercase

/-!
# Log levels

An event has one of five levels. A threshold lets an event pass when the event is at least as
severe.
-/

namespace HourlyPrices

/-- How severe an event is. -/
inductive LogLevel where
  | trace
  | debug
  | info
  | warn
  | error
  deriving DecidableEq

namespace LogLevel

/-- All levels, the least severe first. -/
def all : List LogLevel := [trace, debug, info, warn, error]

/-- The place of a level among all levels. -/
def rank : LogLevel → Nat
  | trace => 0
  | debug => 1
  | info => 2
  | warn => 3
  | error => 4

/-- The name of a level. -/
def name : LogLevel → String
  | trace => "TRACE"
  | debug => "DEBUG"
  | info => "INFO"
  | warn => "WARN"
  | error => "ERROR"

/-- The name of a level as a word. -/
def word : LogLevel → String
  | trace => "Trace"
  | debug => "Debug"
  | info => "Info"
  | warn => "Warn"
  | error => "Error"

/-- The level of a name, without regard to case. -/
def ofText (s : String) : Except Fault LogLevel :=
  match all.find? (·.name == Text.upper s) with
  | some l => .ok l
  | none => .error (.config ("Invalid log level: " ++ s))

/-- Whether an event of the level `l` passes a threshold. -/
def admits (threshold l : LogLevel) : Bool := threshold.rank ≤ l.rank

/-- The threshold that lets pass what either of two lets pass. -/
def lower (a b : LogLevel) : LogLevel := if a.rank ≤ b.rank then a else b

theorem admits_lower (a b l : LogLevel) : (lower a b).admits l = (a.admits l || b.admits l) := by
  cases a <;> cases b <;> cases l <;> rfl

end LogLevel

end HourlyPrices
