import HourlyPrices.Service.Cycle

/-!
# The refresh loop

The loop runs a cycle at once, and then each one when the wait that the one before asked for is
over. Shortly after each full hour it runs the hourly tick, but never during a cycle: a tick that
comes due while a cycle waits for the source runs after it. A shutdown ends the loop at once, also
during a cycle, and empties the cache; an overflow ends it and leaves everything as it is.

Time is measured from the start of the loop on.
-/

namespace HourlyPrices

/-- What the loop is doing. -/
inductive Phase where
  /-- The next cycle is due at a time. -/
  | idle (refreshAt : Duration)
  /-- A cycle waits for an answer. -/
  | fetching (request : Request) (next : request.Answer → Activity CycleOutcome)
  | stopped
  | failed (o : Overflow)

/-- The state of the loop. -/
structure Loop where
  cache : Cache
  schedule : Schedule
  /-- When the hourly tick is due. -/
  tickAt : Duration
  phase : Phase

/-- What can happen to the loop. When both timers are due, either of them may go off first. -/
inductive Signal where
  /-- The timer of the next cycle goes off. -/
  | refreshTimer
  /-- The timer of the hourly tick goes off. -/
  | tickTimer
  /-- The source answers. -/
  | answer (source : Source)
  | shutdown

/-- The moment at which something happens: the time since the start of the loop, and what is to be
seen then. -/
structure Moment where
  elapsed : Duration
  view : View
  /-- The name of a cycle that starts at this moment. -/
  cycleName : String
  /-- The draw for the jitter of a delay. -/
  draw : Nat

namespace Loop

/-- How long after the full hour the tick is due. -/
def tickDelay : Duration := .ofMillis 1

/-- When the next tick is due. -/
def nextTick (m : Moment) : Except Overflow Duration := do
  let hour ← Overflow.time.unless m.view.now.nextHour?
  return ⟨m.elapsed.nanos + (Duration.ofSpan (hour.since m.view.now)).nanos + tickDelay.nanos⟩

/-- Delays of so many seconds cannot be waited for. -/
def delayBound : Nat := 9223372036854775807

/-- The time after a delay. -/
def after (elapsed delay : Duration) : Except Overflow Duration :=
  if delay.seconds < delayBound then .ok ⟨elapsed.nanos + delay.nanos⟩ else .error .time

/-- Logs an event of the loop. -/
def event (c : Config) (level : LogLevel) (message : String) : Effect :=
  .log ((Cycle.context c).event level message)

/-- Starts the loop; its first cycle is due at once. -/
def start (c : Config) (m : Moment) : List Effect × Loop :=
  let loop : Loop :=
    { cache := .empty, schedule := .start c, tickAt := m.elapsed, phase := .idle m.elapsed }
  ([event c .info "Refresh orchestrator started"],
   match nextTick m with
   | .ok t => { loop with tickAt := t }
   | .error o => { loop with phase := .failed o })

/-- Whether the loop has ended. -/
def isFinished (l : Loop) : Bool :=
  match l.phase with
  | .stopped | .failed _ => true
  | .idle _ | .fetching _ _ => false

/-- The request that waits for an answer. -/
def pending? (l : Loop) : Option Request :=
  match l.phase with
  | .fetching r _ => some r
  | _ => none

/-- The timer that goes off next, and its time. -/
def wake? (l : Loop) : Option (Duration × Signal) :=
  match l.phase with
  | .idle refreshAt =>
    if refreshAt.nanos ≤ l.tickAt.nanos then some (refreshAt, .refreshTimer)
    else some (l.tickAt, .tickTimer)
  | _ => none

/-- The loop after a cycle has run until it waits or ends. -/
def cycleTo (l : Loop) (m : Moment) :
    List Effect × Cache × Activity.Stage CycleOutcome → List Effect × Loop
  | (effects, cache, .waiting r next) => (effects, { l with cache, phase := .fetching r next })
  | (effects, cache, .ended (.error o)) => (effects, { l with cache, phase := .failed o })
  | (effects, cache, .ended (.ok outcome)) =>
    let l := { l with cache, schedule := outcome.schedule }
    (effects, { l with phase := match after m.elapsed outcome.delay with
      | .ok t => .idle t
      | .error o => .failed o })

/-- Runs a cycle. -/
def refresh (c : Config) (l : Loop) (m : Moment) : List Effect × Loop :=
  cycleTo l m
    (Activity.advance m.view (Cycle.refresh c l.schedule m.cycleName m.draw) l.cache)

/-- Runs the hourly tick. It makes no requests. -/
def tick (c : Config) (l : Loop) (m : Moment) : List Effect × Loop :=
  match Activity.advance m.view (Cycle.tick c) l.cache with
  | (effects, cache, .ended (.error o)) => (effects, { l with cache, phase := .failed o })
  | (effects, cache, _) =>
    (effects, match nextTick m with
      | .ok t => { l with cache, tickAt := t }
      | .error o => { l with cache, phase := .failed o })

/-- Ends the loop. -/
def stop (c : Config) (l : Loop) (level : LogLevel) (message : String) : List Effect × Loop :=
  ([event c level message, event c .info "Refresh orchestrator stopped"],
   { l with cache := .empty, phase := .stopped })

/-- What the loop does when something happens. A signal that does not concern it is passed over, and
so is a timer that is not due. -/
def step (c : Config) (l : Loop) (m : Moment) : Signal → List Effect × Loop
  | .refreshTimer =>
    match l.phase with
    | .idle refreshAt => if refreshAt.nanos ≤ m.elapsed.nanos then l.refresh c m else ([], l)
    | _ => ([], l)
  | .tickTimer =>
    match l.phase with
    | .idle _ => if l.tickAt.nanos ≤ m.elapsed.nanos then l.tick c m else ([], l)
    | _ => ([], l)
  | .answer source =>
    match l.phase with
    | .fetching r next => cycleTo l m (Activity.advance m.view (next (source r)) l.cache)
    | _ => ([], l)
  | .shutdown =>
    match l.phase with
    | .idle _ => l.stop c .info "Shutdown signal received"
    | .fetching _ _ => l.stop c .debug "Refresh cycle interrupted by shutdown"
    | .stopped | .failed _ => ([], l)

end Loop

end HourlyPrices
