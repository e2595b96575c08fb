import HourlyPrices.Log.Line
import HourlyPrices.Program.Startup
import HourlyPrices.Service.Loop
import Std.Time.DateTime.Timestamp

/-!
# The program

Reads the configuration, sets up the log and runs the refresh loop, writing all that it publishes to
the log. The loop is shut down when the standard input ends. There is no transport for requests
here: each ends in a fault.
-/

namespace HourlyPrices.Program

/-- The current instant. -/
def now : IO Instant := do
  return Instant.normal 0 (← Std.Time.Timestamp.now).toNanosecondsSinceUnixEpoch.val

/-- Reads a file. -/
def readText (path : String) : IO (Except FileFault String) := do
  try
    match String.fromUTF8? (← IO.FS.readBinFile path) with
    | some text => return .ok text
    | none => return .error .notText
  catch
    | .noFileOrDirectory _ _ _ => return .error .missing
    | e => return .error (.other (toString e))

/-- What the program finds when it starts. -/
def surroundings (arguments : List String) : IO Surroundings := do
  let paths := arguments.take 1 ++ Config.usualPaths
  let texts ← paths.mapM fun path => do return (path, ← readText path)
  return {
    arguments
    read := fun path => (texts.lookup path).getD (.error .missing)
    holdsLog := fun _ => true
    log := ⟨(← IO.getEnv "ELSPOT_DISABLE_FILE_LOG").isSome, ← IO.getEnv "RUST_LOG"⟩ }

/-- Opens the log file of today, if there is to be one. -/
def openFile (s : LogSetup) : IO (Option IO.FS.Handle) := do
  match s.file with
  | none => return none
  | some (path, _) =>
    let directory := logDirectory path
    let directory := if directory.isEmpty then "." else directory
    IO.FS.createDirAll directory
    let day := (LocalTime.ofUtc (← now)).date.toText
    return some (← IO.FS.Handle.mk s!"{directory}/elspot.{day}.log" .append)

/-- Writes an event wherever it belongs. -/
def record (s : LogSetup) (file : Option IO.FS.Handle) (e : LogEvent) : IO Unit := do
  let text := e.toLine s.jsonFormat (← now)
  if s.onConsole e then IO.println text
  if s.inFile e then
    if let some handle := file then handle.putStrLn text

/-- A source that cannot be reached. -/
def unreachable : Source
  | .spot _ => .error (.communication none "no transport")
  | .tariffs _ _ => .error (.communication none "no transport")

/-- The longest sleep between two looks at the standard input, in milliseconds. -/
def nap : Nat := 50

/-- Random draws stay below this bound. -/
def drawBound : Nat := 4611686018427387904

/-- Runs the loop until it ends. -/
partial def serve (c : Config) (report : LogEvent → IO Unit) (started : Nat) (ended : IO Bool)
    (l : Loop) : IO Unit := do
  let elapsed : Duration := ⟨(← IO.monoNanosNow) - started⟩
  let m : Moment := {
    elapsed
    view := { now := ← now, subscribed := c.subscriptions }
    cycleName := toString (← IO.rand 0 drawBound)
    draw := ← IO.rand 0 drawBound }
  let next := fun (x : Signal) => do
    let (effects, l) := l.step c m x
    (effects.filterMap Effect.event?).forM report
    serve c report started ended l
  if l.isFinished then return
  else if ← ended then
    report Startup.stopping
    next .shutdown
  else if l.pending?.isSome then next (.answer unreachable)
  else match l.wake? with
    | some (t, x) =>
      if t.nanos ≤ elapsed.nanos then next x
      else
        IO.sleep (min nap (Duration.millis ⟨t.nanos - elapsed.nanos⟩ + 1)).toUInt32
        serve c report started ended l
    | none => return

/-- Runs a program that has started. -/
def runStarted (s : Startup) (file : Option IO.FS.Handle) : IO Unit := do
  let report := record s.log file
  (s.greeting none).forM report
  let input ← IO.getStdin
  let closed ← IO.asTask do
    repeat
      if (← input.getLine).isEmpty then break
  let started ← IO.monoNanosNow
  let (effects, l) := Loop.start s.config
    { elapsed := ⟨0⟩, view := { now := ← now }, cycleName := "", draw := 0 }
  (effects.filterMap Effect.event?).forM report
  serve s.config report started (IO.hasFinished closed) l
  report Startup.stopped

/-- Says why the program does not start. -/
def fail (f : StartFault) : IO UInt32 := do
  IO.eprintln s!"Error: {f.message}"
  IO.eprintln ""
  IO.eprintln "Caused by:"
  IO.eprintln s!"    {f.cause.message}"
  return 1

/-- Runs the program. -/
def run (arguments : List String) : IO UInt32 := do
  match Startup.ofSurroundings (← surroundings arguments) with
  | .error f => fail f
  | .ok s =>
    match ← (openFile s.log).toBaseIO with
    | .error e =>
      fail (.log (LogSetup.reported (.io s!"Failed to create log file appender: {e}")))
    | .ok file =>
      runStarted s file
      return 0

end HourlyPrices.Program

def main (arguments : List String) : IO UInt32 := HourlyPrices.Program.run arguments
