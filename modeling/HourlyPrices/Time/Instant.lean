/-!
# Instants and spans

An instant counts seconds since the start of 1970 in UTC and nanoseconds within the second. A leap
second is the second before it with a nanosecond count of `10 ^ 9` or more. All prices are keyed
by the instant at which their clock hour starts.
-/

namespace HourlyPrices

/-- Nanoseconds in a second. -/
abbrev nanosPerSecond : Nat := 1000000000

/-- Seconds in an hour. -/
abbrev secondsPerHour : Nat := 3600

/-- Seconds in a day. -/
abbrev secondsPerDay : Nat := 86400

/-- A length of time, negative when it points back. -/
structure Span where
  nanos : Int
  deriving DecidableEq

namespace Span

/-- A span of whole seconds. -/
def ofSeconds (n : Int) : Span := ⟨n * nanosPerSecond⟩

/-- A span of whole milliseconds. -/
def ofMillis (n : Int) : Span := ⟨n * 1000000⟩

/-- A span of whole hours. -/
def ofHours (n : Int) : Span := ofSeconds (n * secondsPerHour)

/-- Whole seconds, toward zero. -/
def seconds (d : Span) : Int := d.nanos.tdiv nanosPerSecond

/-- The nanoseconds beyond the whole seconds, with the sign of the span. -/
def subNanos (d : Span) : Int := d.nanos.tmod nanosPerSecond

/-- Whole milliseconds, toward zero. -/
def millis (d : Span) : Int := d.nanos.tdiv 1000000

/-- The span, or nothing when it is negative. -/
def clampZero (d : Span) : Span := if d.nanos < 0 then ⟨0⟩ else d

/-- The largest count of milliseconds that a span may have in either direction. -/
def maxMillis : Int := 9223372036854775807

/-- Whether the span is within the representable milliseconds. -/
def inRange (d : Span) : Bool := -maxMillis * 1000000 ≤ d.nanos ∧ d.nanos ≤ maxMillis * 1000000

/-- The span, when it is representable. -/
def checked (d : Span) : Option Span := if d.inRange then some d else none

instance : LE Span := ⟨fun a b => a.nanos ≤ b.nanos⟩
instance : LT Span := ⟨fun a b => a.nanos < b.nanos⟩
instance (a b : Span) : Decidable (a ≤ b) := inferInstanceAs (Decidable (a.nanos ≤ b.nanos))
instance (a b : Span) : Decidable (a < b) := inferInstanceAs (Decidable (a.nanos < b.nanos))

end Span

/-- An instant of UTC. -/
structure Instant where
  seconds : Int
  nanos : Nat := 0
  nanos_lt : nanos < 2 * nanosPerSecond := by decide
  deriving DecidableEq

namespace Instant

instance : Inhabited Instant := ⟨⟨0, 0, by decide⟩⟩

/-- The start of a second. -/
def ofSeconds (s : Int) : Instant := { seconds := s }

/-- Instants are ordered by their seconds and then by their nanoseconds. -/
protected def lt (a b : Instant) : Prop :=
  a.seconds < b.seconds ∨ (a.seconds = b.seconds ∧ a.nanos < b.nanos)

/-- Not after. -/
protected def le (a b : Instant) : Prop :=
  a.seconds < b.seconds ∨ (a.seconds = b.seconds ∧ a.nanos ≤ b.nanos)

instance : LT Instant := ⟨Instant.lt⟩
instance : LE Instant := ⟨Instant.le⟩
instance (a b : Instant) : Decidable (a < b) :=
  inferInstanceAs (Decidable (a.seconds < b.seconds ∨ (a.seconds = b.seconds ∧ a.nanos < b.nanos)))
instance (a b : Instant) : Decidable (a ≤ b) :=
  inferInstanceAs (Decidable (a.seconds < b.seconds ∨ (a.seconds = b.seconds ∧ a.nanos ≤ b.nanos)))

theorem lt_def {a b : Instant} :
    a < b ↔ a.seconds < b.seconds ∨ (a.seconds = b.seconds ∧ a.nanos < b.nanos) := Iff.rfl

theorem le_def {a b : Instant} :
    a ≤ b ↔ a.seconds < b.seconds ∨ (a.seconds = b.seconds ∧ a.nanos ≤ b.nanos) := Iff.rfl

theorem ext_iff {a b : Instant} : a = b ↔ a.seconds = b.seconds ∧ a.nanos = b.nanos := by
  cases a
  cases b
  simp

theorem lt_irrefl (a : Instant) : ¬ a < a := by
  simp [lt_def]

theorem lt_trans {a b c : Instant} (h₁ : a < b) (h₂ : b < c) : a < c := by
  rw [lt_def] at *
  omega

theorem lt_of_le_of_lt {a b c : Instant} (h₁ : a ≤ b) (h₂ : b < c) : a < c := by
  rw [lt_def] at *
  rw [le_def] at *
  omega

theorem lt_of_lt_of_le {a b c : Instant} (h₁ : a < b) (h₂ : b ≤ c) : a < c := by
  rw [lt_def] at *
  rw [le_def] at *
  omega

theorem le_trans {a b c : Instant} (h₁ : a ≤ b) (h₂ : b ≤ c) : a ≤ c := by
  rw [le_def] at *
  omega

theorem le_refl (a : Instant) : a ≤ a := by
  simp [le_def]

theorem le_of_lt {a b : Instant} (h : a < b) : a ≤ b := by
  rw [lt_def] at h
  rw [le_def]
  omega

theorem not_lt {a b : Instant} : ¬ a < b ↔ b ≤ a := by
  rw [lt_def, le_def]
  omega

theorem not_le {a b : Instant} : ¬ a ≤ b ↔ b < a := by
  rw [lt_def, le_def]
  omega

theorem eq_of_not_lt {a b : Instant} (h₁ : ¬ a < b) (h₂ : ¬ b < a) : a = b := by
  rw [lt_def] at h₁ h₂
  rw [ext_iff]
  omega

/-- The later of two instants. -/
def latest (a b : Instant) : Instant := if b ≤ a then a else b

/-- The earlier of two instants. -/
def earliest (a b : Instant) : Instant := if a ≤ b then a else b

/-! ## Hours -/

/-- The start of the clock hour in which an instant lies. -/
def hourStart (t : Instant) : Instant := ofSeconds (t.seconds - t.seconds % secondsPerHour)

/-- Whether the instant starts a clock hour. -/
def IsHour (t : Instant) : Prop := t.nanos = 0 ∧ t.seconds % secondsPerHour = 0

instance (t : Instant) : Decidable t.IsHour := inferInstanceAs (Decidable (_ ∧ _))

theorem isHour_hourStart (t : Instant) : t.hourStart.IsHour := by
  constructor
  · rfl
  · simp only [hourStart, ofSeconds, secondsPerHour]
    omega

theorem hourStart_of_isHour {t : Instant} (h : t.IsHour) : t.hourStart = t := by
  simp only [hourStart, ofSeconds, ext_iff]
  obtain ⟨h₁, h₂⟩ := h
  omega

theorem hourStart_le (t : Instant) : t.hourStart ≤ t := by
  simp only [hourStart, ofSeconds, le_def, secondsPerHour]
  omega

/-! ## Shifting -/

/-- The first second that is representable: the start of year -262143. -/
def minSeconds : Int := -8334601228800

/-- The last second that is representable: the end of year 262142. -/
def maxSeconds : Int := 8210266876799

/-- Whether the instant is within the representable years. -/
def inRange (t : Instant) : Bool := minSeconds ≤ t.seconds ∧ t.seconds ≤ maxSeconds

/-- The instant with these parts after nanoseconds outside of a second are carried. -/
def normal (seconds nanos : Int) : Instant where
  seconds := seconds + nanos / nanosPerSecond
  nanos := (nanos % nanosPerSecond).toNat
  nanos_lt := by simp only [nanosPerSecond]; omega

/-- The instant `d` after `t`, without regard to the range. A shift that stays within a leap second
moves inside it; one that leaves it counts from the second before (forward) or after (back). -/
def shift (t : Instant) (d : Span) : Instant :=
  let s := d.seconds
  let f := d.subNanos
  if t.nanos < nanosPerSecond then normal (t.seconds + s) (t.nanos + f)
  else if 0 < s ∨ (0 < f ∧ 2 * nanosPerSecond ≤ t.nanos + f) then
    normal (t.seconds + s) (t.nanos - nanosPerSecond + f)
  else if s < 0 then normal (t.seconds + 1 + s) (t.nanos - nanosPerSecond + f)
  else if h : 0 ≤ t.nanos + f ∧ t.nanos + f < 2 * nanosPerSecond then
    { seconds := t.seconds, nanos := (t.nanos + f).toNat,
      nanos_lt := by simp only [nanosPerSecond] at *; omega }
  else normal t.seconds (t.nanos + f)

/-- The instant `d` after `t`, when it is representable. -/
def add? (t : Instant) (d : Span) : Option Instant :=
  let u := t.shift d
  if u.inRange then some u else none

/-- The span from `b` to `a`; a leap second between their times of day counts. -/
def since (a b : Instant) : Span :=
  let da := a.seconds % secondsPerDay
  let db := b.seconds % secondsPerDay
  let leap : Int :=
    if db < da then (if nanosPerSecond ≤ b.nanos then 1 else 0)
    else if da < db then (if nanosPerSecond ≤ a.nanos then -1 else 0)
    else 0
  ⟨(a.seconds - b.seconds + leap) * nanosPerSecond + ((a.nanos : Int) - b.nanos)⟩

/-- The start of the clock hour after the one in which `t` lies, when it is representable. -/
def nextHour? (t : Instant) : Option Instant := t.hourStart.add? (Span.ofHours 1)

end Instant

end HourlyPrices
