import HourlyPrices.Retry.Policy
import HourlyPrices.Service.Query

/-!
# The refresh cycle

A cycle downloads the components that are needed and not known far enough, drops past hours,
publishes the status, the current values and the curve of future prices, and decides when the next
cycle is due. A component is needed when its own channel or the curve has consumers. Between the
cycles an hourly tick drops past hours and publishes prices again.
-/

namespace HourlyPrices

/-- How cycles are scheduled: the policy in force, and whether a cycle has ever succeeded. -/
structure Schedule where
  policy : RetryPolicy
  bootstrapped : Bool := false
  deriving DecidableEq

/-- What a cycle ends with. -/
structure CycleOutcome where
  status : ServiceStatus
  /-- The wait until the next cycle. -/
  delay : Duration
  /-- The instant at which the next cycle is due. -/
  nextCall : Instant
  /-- The schedule after the cycle. -/
  schedule : Schedule
  deriving DecidableEq

/-- The schedule before the first cycle. -/
def Schedule.start (c : Config) : Schedule := { policy := c.retry.initialPolicy }

namespace View

/-- Whether a component is needed. -/
def needs (v : View) (k : Component) : Bool :=
  v.subscribed.contains (.current k) || v.subscribed.contains .hourlyPrices

/-- Whether any component is needed. -/
def needsAny (v : View) : Bool := Component.all.any v.needs

end View

namespace Cycle

/-- The context of cycles in the log. -/
def context (c : Config) : LogContext :=
  { component := "orchestrator", priceArea := some c.service.priceArea,
    extra := [("currency", c.service.currency.code)] }

/-! ## Downloads -/

/-- Of the faults of a cycle, the one that is reported: the first that is due to the configuration,
or else the first. -/
def reported (faults : List Fault) : Except Fault Unit :=
  match (faults.find? (·.kind == .configuration)) <|> faults.head? with
  | some f => .error f
  | none => .ok ()

/-- Downloads those of some components that have to be, and gives the faults. A fault keeps no other
component from being downloaded. -/
def downloads (c : Config) (context : LogContext) : List Component → Activity (List Fault)
  | [] => return []
  | k :: ks => do
    let v ← .view
    if !v.needs k then downloads c context ks
    else
      let context' := context.withField "price_component" k.name
      if !(← .lift (c.needsDownload (← .cached) k v.now)) then
        .log context' .debug "Cached series still valid, skipping download"
        downloads c context ks
      else
        match ← Download.component c k with
        | .ok n =>
          .log context' .debug s!"Downloaded {n} records"
          downloads c context ks
        | .error f =>
          .log context' .warn s!"Download of {k.name} failed: {f.message}"
          return f :: (← downloads c context ks)

/-- Downloads what is needed, if the configuration is valid. -/
def download (c : Config) (context : LogContext) : Activity (Except Fault Unit) :=
  match c.validate with
  | .error f => return .error f
  | .ok () => do return reported (← downloads c context Component.all)

/-! ## Publishing -/

/-- Publishes the current values of some components, as far as they have consumers. -/
def publishCurrent (c : Config) : List Component → Activity Unit
  | [] => return ()
  | k :: ks => do
    let v ← .view
    if v.subscribed.contains (.current k) then
      .publish (.currentValue k (← .lift (c.currentValue (← .cached) k v.now)))
    publishCurrent c ks

/-- Publishes the current values and the curve of future prices, as far as they have consumers. -/
def publishPrices (c : Config) : Activity Unit := do
  publishCurrent c Component.all
  if (← .view).subscribed.contains .hourlyPrices then
    .publish (.futurePrices (c.futurePrices (← .cached)))

/-- The zone in which times are published. -/
def publicationZone (c : Config) : Zone := c.localZone.toOption.getD marketZone

/-- The text of a time as it is published. -/
def timeText (c : Config) (t : Instant) : String := ((publicationZone c).localTime t).readableText

/-- The properties of the quota, as far as they are known. -/
def usageProperties (c : Config) (u : ApiUsage) : List (String × String) :=
  (u.remainingCalls.map fun n => ("remainingCalls", toString n)).toList ++
  (u.totalCalls.map fun n => ("totalCalls", toString n)).toList ++
  (u.lastCall.map fun t => ("lastCall", timeText c t)).toList

/-- The properties after a cycle. -/
def properties (c : Config) (usage : Option ApiUsage) (nextCall : Instant) :
    List (String × String) :=
  (usage.map (usageProperties c)).getD [] ++ [("nextCall", timeText c nextCall)]

/-! ## Scheduling -/

/-- The time at which prices are published; midnight stands for a time that is not valid. -/
def publicationTime (c : Config) : TimeOfDay := c.retry.publicationTime.toOption.getD .midnight

/-- What is missing of the spot prices that should be known by now, when they are needed. -/
def shortage? (c : Config) (cache : Cache) (v : View) : Option Fault :=
  let expected := c.retry.minimumLookaheadHours
  let actual := cache.lookahead .spotPrice v.now
  if v.needs .spotPrice && actual < expected then some (.dataIncomplete expected actual) else none

/-- The policy that the outcome of a cycle asks for: one for its fault, if it failed; one for
missing prices, if spot prices are needed and too few are known; the next publication of spot
prices, if they are needed; and otherwise the next local midnight, unless nothing has been needed
from the start. -/
def candidate (c : Config) (cache : Cache) (v : View) (bootstrapped : Bool)
    (result : Except Fault Unit) : RetryPolicy :=
  match result with
  | .error f => c.retry.faultPolicy f (publicationTime c) marketZone
  | .ok () =>
    if v.needs .spotPrice then
      match shortage? c cache v with
      | some f => c.retry.faultPolicy f (publicationTime c) marketZone
      | none => .fixedDailyAnchor (publicationTime c) marketZone
    else if !bootstrapped && !v.needsAny then c.retry.initialPolicy
    else .fixedDailyAnchor .midnight (publicationZone c)

/-- The schedule after a cycle, and the wait until the next one. -/
def reschedule (s : Schedule) (candidate : RetryPolicy) (succeeded : Bool) (now : Instant)
    (draw : Nat) : Duration × Schedule :=
  let (delay, policy) := (s.policy.replacedBy candidate).next now draw
  (delay, ⟨policy, s.bootstrapped || succeeded⟩)

/-- The instant at which the next cycle is due. A delay whose milliseconds do not fit a time span is
shown as one second. -/
def nextCall (now : Instant) (delay : Duration) : Except Overflow Instant :=
  Overflow.time.unless (now.add? (delay.toSpan.checked.getD (.ofSeconds 1)))

/-- Publishes some properties. -/
def publishProperties : List (String × String) → Activity Unit
  | [] => return ()
  | (k, v) :: ps => do
    .publish (.property k v)
    publishProperties ps

/-- Runs a cycle. The name of the cycle is shown in the log, and `draw` decides the jitter of the
delay. -/
def refresh (c : Config) (s : Schedule) (name : String) (draw : Nat) : Activity CycleOutcome := do
  let context' := (context c).forCycle name
  .log context' .debug "Refresh cycle started"
  let result ← download c context'
  .store (← .lift ((← .cached).cleanup c.cache (← .view).now))
  match result with
  | .ok () => pure ()
  | .error f => .log context' .warn s!"Refresh failed: {f.message}"
  let status := ServiceStatus.ofResult result
  .publish (.status status)
  publishPrices c
  let v ← .view
  let cache ← .cached
  match result, shortage? c cache v with
  | .ok (), some f => .log (context c) .debug f.message
  | _, _ => pure ()
  let (delay, schedule) :=
    reschedule s (candidate c cache v s.bootstrapped result) result.isOk v.now draw
  let next ← .lift (nextCall v.now delay)
  publishProperties (properties c v.usage next)
  let policy := schedule.policy.name
  .log context' .debug
    s!"Refresh job rescheduled in {delay.seconds} seconds ({policy}): {next.readableText}"
  return { status, delay, nextCall := next, schedule }

/-- The hourly tick. -/
def tick (c : Config) : Activity Unit := do
  .store (← .lift ((← .cached).cleanup c.cache (← .view).now))
  publishPrices c

end Cycle

end HourlyPrices
