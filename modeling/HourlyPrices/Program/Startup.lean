import HourlyPrices.Config.File
import HourlyPrices.Log.Setup
import HourlyPrices.Version

/-!
# Starting the program

The program reads its configuration, from the path that is its first argument or from one of the
usual places, sets up its log, and says for whom it starts. It ends with an error when there is no
valid configuration file, or when its log cannot be set up; whether the settings keep their rules is
for the first refresh cycle to find out.
-/

namespace HourlyPrices

/-- What the program finds when it starts. -/
structure Surroundings where
  arguments : List String
  /-- Reads a file. -/
  read : String → Except FileFault String
  /-- Whether a log file can be made in a directory. -/
  holdsLog : String → Bool
  log : LogEnvironment

/-- Why the program does not start. -/
inductive StartFault where
  | config (path : Option String) (cause : Fault)
  | log (cause : Fault)
  deriving DecidableEq

/-- The wording of a fault, without its cause. -/
def StartFault.message : StartFault → String
  | config (some path) _ => "Failed to load configuration from " ++ path
  | config none _ => "Failed to load configuration"
  | log _ => "Failed to initialize logging"

/-- The cause of a fault. -/
def StartFault.cause : StartFault → Fault
  | config _ f => f
  | log f => f

/-- A program that has started. -/
structure Startup where
  config : Config
  log : LogSetup

namespace Startup

/-- The context of the program in the log. -/
def context : LogContext := { component := "main" }

/-- The configuration of the program. -/
def configuration (s : Surroundings) : Except StartFault Config :=
  match s.arguments with
  | path :: _ => (Config.ofFile (s.read path)).mapError (.config (some path))
  | [] => (Config.load s.read).mapError (.config none)

/-- The log of the program, if its file can be made. -/
def openLog (s : Surroundings) (c : Config) : Except Fault LogSetup := do
  let setup ← LogSetup.ofSettings c.logging s.log
  match setup.file with
  | some (path, _) =>
    if s.holdsLog (logDirectory path) then return setup
    else .error (.io "Failed to create log file appender")
  | none => return setup

/-- Starts the program. -/
def ofSurroundings (s : Surroundings) : Except StartFault Startup := do
  let config ← configuration s
  let log ← (openLog s config).mapError fun f => .log (LogSetup.reported f)
  return { config, log }

/-- How the grid company is announced. -/
def gridCompanyEvent (c : Config) : LogEvent :=
  let gln := Gln.ofText c.service.gridCompanyGln
  if gln.isEmpty then
    context.event .warn "No grid company configured, net tariffs will not be fetched"
  else
    let name := match GridCompany.ofGln? gln with
      | some g => g.name
      | none => "unknown, no default tariff filter"
    context.event .info s!"Grid company {gln.text} ({name})"

/-- What the program says when it has started, built from a revision if one is known. -/
def greeting (s : Startup) (revision : Option String) : List LogEvent :=
  [s.log.opening,
   context.event .info ("Elspot " ++ builtVersion revision ++ " starting for price area " ++
     s.config.service.priceArea ++ " (" ++ s.config.service.currency.code ++ ")"),
   gridCompanyEvent s.config]

/-- What the program says before it stops. -/
def stopping : LogEvent := context.event .info "Shutting down"

/-- What the program says after it has stopped. -/
def stopped : LogEvent := context.event .info "Shutdown complete"

end Startup

end HourlyPrices
