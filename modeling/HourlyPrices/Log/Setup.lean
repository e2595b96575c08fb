import HourlyPrices.Config.Basic
import HourlyPrices.Log.Event
import HourlyPrices.Log.Filter

/-!
# Setting up the log

Events go to the console and to a file that is begun anew each day. Each of the two has a level of
its own, and a filter stands before both: the one that the environment gives, or else the one that
lets pass what either of the two shows. The environment can turn the file off; then the console is
always on.
-/

namespace HourlyPrices

/-- What the environment says about the log. -/
structure LogEnvironment where
  /-- Whether the file is turned off. -/
  consoleOnly : Bool := false
  /-- The directives that stand for the levels of the settings. -/
  directives : Option String := none

/-- Where events go. -/
structure LogSetup where
  filter : LogFilter
  consoleLevel : LogLevel
  /-- Whether events go to the console. -/
  console : Bool
  /-- The path of the settings and the level of the file, if events go there. -/
  file : Option (String × LogLevel)
  jsonFormat : Bool
  deriving DecidableEq

/-- The target of all events. -/
def logTarget : String := "elspot::logging"

/-- The directory of the log file: a path whose last part has an ending names a file in it, and any
other path the directory. -/
def logDirectory (path : String) : String :=
  let parts := ((path.toList.splitOn '/').reverse.dropWhile fun p => p == [] || p == ['.']).reverse
  match parts.getLast? with
  | none => path
  | some name =>
    if name == ['.', '.'] || !(name.drop 1).contains '.' then path
    else if parts.dropLast == [[]] then "/"
    else String.ofList ((['/'] : List Char).intercalate parts.dropLast)

/-- The level that a part of the settings asks for. A level that is not one counts as left out. -/
def levelOr (base : LogLevel) (asked : Option String) : LogLevel :=
  match asked.map LogLevel.ofText with
  | some (.ok l) => l
  | _ => base

namespace LogSetup

/-- The setup of the settings in an environment. -/
def ofSettings (s : LogSettings) (env : LogEnvironment) : Except Fault LogSetup := do
  let base ← LogLevel.ofText s.level
  let consoleLevel := levelOr base s.consoleLevel
  let fileLevel := levelOr base s.fileLevel
  return {
    filter := (env.directives.bind LogFilter.ofText?).getD
      (.ofThreshold "elspot" (consoleLevel.lower fileLevel))
    consoleLevel
    console := env.consoleOnly || s.consoleOutput
    file := if env.consoleOnly then none else some (s.file, fileLevel)
    jsonFormat := s.jsonFormat }

/-- A fault while the log is set up, as it is reported each time. -/
def reported (f : Fault) : Fault := .config f.message

/-- The first event of every log. -/
def opening (s : LogSetup) : LogEvent where
  level := .info
  fields := none
  message := "Logging initialized - console_level: Level(" ++ s.consoleLevel.word ++ ")" ++
    match s.file with
    | some (path, level) => ", file_level: Level(" ++ level.word ++ "), file: " ++ path
    | none => ", console-only"

/-- Whether an event is shown on the console. -/
def onConsole (s : LogSetup) (e : LogEvent) : Bool :=
  s.console && s.filter.admits logTarget e.level && s.consoleLevel.admits e.level

/-- Whether an event is written to the file. -/
def inFile (s : LogSetup) (e : LogEvent) : Bool :=
  match s.file with
  | some (_, level) => s.filter.admits logTarget e.level && level.admits e.level
  | none => false

end LogSetup

end HourlyPrices
