import HourlyPrices.Time.Instant

/-!
# Durations

How long to wait: a number of nanoseconds that is never negative. Durations that are read from
settings have whole seconds; the longest one is `longest`.
-/

namespace HourlyPrices

/-- A length of time that is not negative. -/
structure Duration where
  nanos : Nat
  deriving DecidableEq

namespace Duration

/-- Nanoseconds in a millisecond. -/
abbrev nanosPerMilli : Nat := 1000000

/-- A duration of whole seconds. -/
def ofSeconds (n : Nat) : Duration := ⟨n * nanosPerSecond⟩

/-- A duration of whole milliseconds. -/
def ofMillis (n : Nat) : Duration := ⟨n * nanosPerMilli⟩

/-- Whole seconds. -/
def seconds (d : Duration) : Nat := d.nanos / nanosPerSecond

/-- Whole milliseconds. -/
def millis (d : Duration) : Nat := d.nanos / nanosPerMilli

/-- The longest duration: its seconds fill 64 bits. -/
def longest : Duration := ⟨(UInt64.size - 1) * nanosPerSecond + (nanosPerSecond - 1)⟩

/-- The shorter of two durations. -/
def shorter (a b : Duration) : Duration := ⟨min a.nanos b.nanos⟩

/-- The longer of two durations. -/
def longer (a b : Duration) : Duration := ⟨max a.nanos b.nanos⟩

/-- A multiple of a duration, at most the longest one. -/
def times (d : Duration) (n : Nat) : Duration := shorter ⟨d.nanos * n⟩ longest

/-- The wait for a span, none when it points back. -/
def ofSpan (d : Span) : Duration := ⟨d.nanos.toNat⟩

/-- The duration as a span. -/
def toSpan (d : Duration) : Span := ⟨d.nanos⟩

end Duration

end HourlyPrices
