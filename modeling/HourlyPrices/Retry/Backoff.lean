import HourlyPrices.Time.Duration

/-!
# Back-off

A back-off doubles its delay with each attempt, from a minimum up to a maximum. To each delay a
random share of it, the jitter, may be added; the draw that decides it is an argument, so that all
that is said of a back-off holds for every draw.
-/

namespace HourlyPrices

/-- A delay that grows from attempt to attempt. -/
structure Backoff where
  minimum : Duration
  maximum : Duration
  /-- The most that is added at random, in percent of the delay. -/
  jitterPercent : Nat
  /-- The number of delays drawn so far. -/
  attempt : Nat := 0
  deriving DecidableEq

namespace Backoff

/-- A delay that neither grows nor varies. -/
def fixed (d : Duration) : Backoff := { minimum := d, maximum := d, jitterPercent := 0 }

/-- Whether two back-offs follow the same rule, whatever they have drawn so far. -/
def sameRule (a b : Backoff) : Bool :=
  a.minimum == b.minimum && a.maximum == b.maximum && a.jitterPercent == b.jitterPercent

/-- The most doublings. -/
def maxDoublings : Nat := 16

/-- The count of attempts stops here. -/
def maxAttempt : Nat := UInt32.size - 1

/-- Counts of milliseconds stop here. -/
def maxMillis : Nat := UInt64.size - 1

/-- The delay of the current attempt without its jitter. -/
def base (b : Backoff) : Duration :=
  (b.minimum.times (Nat.pow 2 (min b.attempt maxDoublings))).shorter b.maximum

/-- The number of milliseconds among which the jitter is drawn. -/
def jitterRange (b : Backoff) : Nat :=
  if b.jitterPercent = 0 then 1
  else max 1 (min (min b.base.millis maxMillis * b.jitterPercent) maxMillis / 100)

/-- The delay of the current attempt in whole milliseconds, with the jitter that a draw decides. -/
def delay (b : Backoff) (draw : Nat) : Duration :=
  let millis := min (min b.base.millis maxMillis + draw % b.jitterRange) maxMillis
  (Duration.ofMillis millis).shorter (b.maximum.longer b.minimum)

/-- The back-off behind the current attempt. -/
def next (b : Backoff) : Backoff := { b with attempt := min (b.attempt + 1) maxAttempt }

end Backoff

end HourlyPrices
