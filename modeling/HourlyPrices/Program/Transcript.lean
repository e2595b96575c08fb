import HourlyPrices.Program.Startup
import HourlyPrices.Service.Simulation

/-!
# A short run of the program

What the log holds of a program that is stopped after its first refresh cycle, or while that cycle
waits for an answer.
-/

namespace HourlyPrices

/-- The world of a program whose requests are never answered. -/
def silentWorld (c : Config) : World where
  subscribed := c.subscriptions
  usage := none
  wait? := fun _ => none
  source := fun
    | .spot _ => .ok []
    | .tariffs _ _ => .ok []

/-- The events of a run from its start to its end. -/
def Startup.transcript (s : Startup) (now : Instant) : List LogEvent :=
  let w := silentWorld s.config
  let (begun, loop) := Simulation.start s.config w now
  let (cycle, loop) := loop.waitUntil s.config w 0
  let (ended, _) := loop.signal s.config w .shutdown
  let events := fun (es : List (Nat × Effect)) => es.filterMap fun (_, e) => e.event?
  s.greeting none ++ events begun ++ events cycle ++ [stopping] ++ events ended ++ [stopped]

end HourlyPrices
