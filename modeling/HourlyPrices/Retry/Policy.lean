import HourlyPrices.Config.Basic
import HourlyPrices.Retry.Backoff

/-!
# Retry policies

A policy says how long to wait until the next refresh. It is chosen by the outcome of each refresh;
a policy that is chosen again keeps its back-off where it was.
-/

namespace HourlyPrices

/-- Why a refresh failed, as far as waiting is concerned. -/
inductive FailureClass where
  | configuration
  | rateLimited
  | transient
  deriving DecidableEq

/-- How the delay until the next refresh is found. -/
inductive RetryPolicy where
  /-- A fixed delay before anything has been fetched. -/
  | initial (delay : Duration)
  /-- Waits for the time of day at which prices are published, then backs off until they appear. -/
  | expectedDataMissing (anchor : TimeOfDay) (zone : Zone) (backoff : Backoff)
  /-- The next time of day. -/
  | fixedDailyAnchor (time : TimeOfDay) (zone : Zone)
  /-- Backs off from a failure. -/
  | fromFailure (failure : FailureClass) (backoff : Backoff)
  deriving DecidableEq

namespace RetryPolicy

/-- The name of a policy. -/
def name : RetryPolicy → String
  | initial _ => "initial"
  | expectedDataMissing _ _ _ => "expected-data-missing"
  | fixedDailyAnchor _ _ => "fixed-daily-anchor"
  | fromFailure _ _ => "from-failure"

/-- Whether two policies follow the same rule, whatever their back-offs have drawn so far. -/
def sameRule : RetryPolicy → RetryPolicy → Bool
  | initial d, initial e => d == e
  | expectedDataMissing t z b, expectedDataMissing u y c => t == u && z == y && b.sameRule c
  | fixedDailyAnchor t z, fixedDailyAnchor u y => t == u && z == y
  | fromFailure f b, fromFailure g c => f == g && b.sameRule c
  | _, _ => false

/-- The shortest delay. -/
def shortestDelay : Duration := .ofSeconds 1

/-- The wait until a time of day comes next. -/
def untilNext (time : TimeOfDay) (zone : Zone) (now : Instant) : Duration :=
  .ofSpan ((zone.nextAt time now).since now)

/-- The delay until the next refresh, and the policy behind it. -/
def next (p : RetryPolicy) (now : Instant) (draw : Nat) : Duration × RetryPolicy :=
  let (delay, q) := match p with
    | initial d => (d, p)
    | expectedDataMissing anchor zone b =>
      if zone.hasReached anchor now then (b.delay draw, expectedDataMissing anchor zone b.next)
      else (untilNext anchor zone now, p)
    | fixedDailyAnchor time zone => (untilNext time zone now, p)
    | fromFailure failure b => (b.delay draw, fromFailure failure b.next)
  (delay.longer shortestDelay, q)

/-- The policy in force after `candidate` has been chosen: one of the same rule stays. -/
def replacedBy (p candidate : RetryPolicy) : RetryPolicy :=
  if candidate.sameRule p then p else candidate

end RetryPolicy

namespace RetrySettings

/-- The policy before anything has been fetched. -/
def initialPolicy (r : RetrySettings) : RetryPolicy := .initial (.ofSeconds r.initialDelay)

/-- A back-off with the configured jitter. -/
def backoff (r : RetrySettings) (minimum maximum : Nat) : Backoff :=
  { minimum := .ofSeconds minimum, maximum := .ofSeconds maximum, jitterPercent := r.jitterPercent }

/-- The policy while prices that should be there are missing. -/
def missingPolicy (r : RetrySettings) (anchor : TimeOfDay) (zone : Zone) : RetryPolicy :=
  .expectedDataMissing anchor zone (r.backoff r.dataMissingMinimumDelay r.failureMaximumDelay)

/-- The HTTP status of an exhausted quota. -/
def tooManyRequests : Nat := 429

/-- The policy after a fault. -/
def faultPolicy (r : RetrySettings) (f : Fault) (anchor : TimeOfDay) (zone : Zone) : RetryPolicy :=
  match f.kind with
  | .configuration =>
    .fromFailure .configuration (.fixed (.ofSeconds r.configurationErrorDelay))
  | .dataIncomplete => r.missingPolicy anchor zone
  | .communication | .parse | .cancelled =>
    if f.status? = some tooManyRequests then
      .fromFailure .rateLimited (r.backoff r.rateLimitedMinimumDelay
        (max r.failureMaximumDelay r.rateLimitedMinimumDelay))
    else .fromFailure .transient (r.backoff r.failureMinimumDelay r.failureMaximumDelay)

end RetrySettings

end HourlyPrices
