import HourlyPrices.Service.Loop

/-!
# Simulated time

The loop can be run in simulated time, in which nothing lasts but the waits themselves: those of the
loop for its timers and those for the answers of a source that takes its time, or never answers.
Time moves in whole milliseconds; what is due within one happens at its end.
-/

namespace HourlyPrices

/-- The world in which the loop runs. -/
structure World where
  subscribed : List Channel
  usage : Option ApiUsage
  /-- The milliseconds that an answer takes, if there is to be one. -/
  wait? : Request → Option Nat
  source : Source

/-- A loop at a millisecond of simulated time. -/
structure Simulation where
  /-- The clock at the start. -/
  origin : Instant
  millis : Nat
  loop : Loop
  /-- When the answer comes for which the loop waits, if it ever does, and from which source. What
  the source answers is settled when it is asked. -/
  coming : Option (Nat × Source) := none

namespace Simulation

/-- Whole milliseconds, counting one that is not over. -/
def millisUp (d : Duration) : Nat :=
  (d.nanos + (Duration.nanosPerMilli - 1)) / Duration.nanosPerMilli

/-- What can be seen after some milliseconds. -/
def moment (w : World) (origin : Instant) (millis : Nat) : Moment where
  elapsed := .ofMillis millis
  view := ⟨origin.shift (.ofMillis millis), w.subscribed, w.usage⟩
  cycleName := "CYCLE"
  draw := 0

/-- The simulation after the loop has done something. -/
def take (w : World) (s : Simulation) (p : List Effect × Loop) : List (Nat × Effect) × Simulation :=
  (p.1.map (s.millis, ·),
   { s with
      loop := p.2
      coming := (p.2.pending?.bind w.wait?).map fun wait => (s.millis + wait, w.source) })

/-- Starts the loop. -/
def start (c : Config) (w : World) (origin : Instant) : List (Nat × Effect) × Simulation :=
  let (effects, loop) := Loop.start c (moment w origin 0)
  (effects.map (0, ·), ⟨origin, 0, loop, none⟩)

/-- Lets something happen to the loop. -/
def signal (c : Config) (w : World) (s : Simulation) (x : Signal) :
    List (Nat × Effect) × Simulation :=
  s.take w (s.loop.step c (moment w s.origin s.millis) x)

/-- What happens next by itself, and when. -/
def next? (s : Simulation) : Option (Nat × Signal) :=
  match s.loop.wake?, s.coming with
  | some (t, x), _ => some (max s.millis (millisUp t), x)
  | none, some (t, source) => some (t, .answer source)
  | none, none => none

/-- Lets time pass up to a millisecond, with a bound on how much happens. -/
def runTo (c : Config) (w : World) (stop : Nat) : Nat → Simulation →
    List (Nat × Effect) × Simulation
  | 0, s => ([], { s with millis := stop })
  | fuel + 1, s =>
    match s.next? with
    | some (t, x) =>
      if t ≤ stop then
        let (effects, s) := signal c w { s with millis := t } x
        let (effects', s) := runTo c w stop fuel s
        (effects ++ effects', s)
      else ([], { s with millis := stop })
    | none => ([], { s with millis := stop })

/-- How much can happen in a millisecond: a cycle begins, each of its requests is answered, and a
tick runs. -/
def stepsPerMilli : Nat := Component.all.length + 2

/-- Lets time pass up to a millisecond. -/
def waitUntil (c : Config) (w : World) (stop : Nat) (s : Simulation) :
    List (Nat × Effect) × Simulation :=
  s.runTo c w stop ((stop + 1 - s.millis) * stepsPerMilli)

end Simulation

end HourlyPrices
