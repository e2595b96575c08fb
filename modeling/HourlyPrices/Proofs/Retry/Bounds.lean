import HourlyPrices.Proofs.Config
import HourlyPrices.Proofs.Retry.Draws

/-!
# The bounds of a back-off

A valid configuration bounds the delays after a fault from below by a first step for each class of
faults, and from above by that step or the longest delay after failures, whichever is longer. The
upper bound always holds. The lower one holds when the first step does not lie beyond the longest
delay of its own back-off, which a configuration need not see to while prices are missing, and when
its milliseconds can be counted (`RetrySettings.delays_after_fault`).
-/

namespace HourlyPrices

/-! ## Back-offs between whole seconds -/

namespace Backoff

variable {b : Backoff} {m n : Nat}

theorem delay_le (b : Backoff) (draw : Nat) :
    (b.delay draw).nanos ≤ max b.maximum.nanos b.minimum.nanos := Nat.min_le_right _ _

theorem minimum_le_base (hle : b.minimum.nanos ≤ b.maximum.nanos)
    (hlongest : b.minimum.nanos ≤ Duration.longest.nanos) : b.minimum.nanos ≤ b.base.nanos :=
  Nat.le_min.2 ⟨Nat.le_min.2 ⟨Nat.le_mul_of_pos_right _ (Nat.pow_pos (by decide)), hlongest⟩, hle⟩

/-- Neither doubling nor jitter takes the delay below the minimum. -/
theorem minimum_le_delay (hmin : b.minimum = .ofSeconds m) (hle : b.minimum.nanos ≤ b.maximum.nanos)
    (hfits : m * 1000 ≤ maxMillis) (draw : Nat) : b.minimum.nanos ≤ (b.delay draw).nanos := by
  have hmillis : b.minimum.nanos = m * 1000 * Duration.nanosPerMilli := by
    rw [hmin, Nat.mul_assoc]
    rfl
  have hlongest : maxMillis * Duration.nanosPerMilli ≤ Duration.longest.nanos := by decide
  have hbase : m * 1000 ≤ b.base.millis := by
    rw [Duration.millis, Nat.le_div_iff_mul_le (by decide), ← hmillis]
    refine minimum_le_base hle (Nat.le_trans ?_ hlongest)
    rw [hmillis]
    exact Nat.mul_le_mul_right _ hfits
  rw [hmillis]
  refine Nat.le_min.2 ⟨Nat.mul_le_mul_right _ ?_, ?_⟩
  · exact Nat.le_min.2 ⟨Nat.le_add_right_of_le (Nat.le_min.2 ⟨hbase, hfits⟩), hfits⟩
  · rw [← hmillis]
    exact Nat.le_max_right _ _

/-- The first delay without jitter lies beyond neither the maximum nor the milliseconds that are
counted. -/
theorem first_delay_le (hmax : b.maximum = .ofSeconds n) :
    (b.delay 0).nanos ≤ n * nanosPerSecond ∧
      (b.delay 0).nanos ≤ maxMillis * Duration.nanosPerMilli := by
  have hbase : b.base.nanos ≤ n * nanosPerSecond := by
    simp only [base, Duration.shorter, hmax, Duration.ofSeconds]
    exact Nat.min_le_right _ _
  have hmillis : b.base.millis * Duration.nanosPerMilli ≤ b.base.nanos := Nat.div_mul_le_self _ _
  simp only [delay, Duration.shorter, Duration.ofMillis, Nat.zero_mod, Nat.add_zero,
    Duration.nanosPerMilli] at *
  omega

end Backoff

/-! ## Asking again -/

namespace RetryPolicy

variable {p q : RetryPolicy} {now : Instant} {a b : Backoff}

/-- The policy behind some delays that have been asked for, each at an instant and with a draw. -/
def after (p : RetryPolicy) : List (Instant × Nat) → RetryPolicy
  | [] => p
  | (now, draw) :: asked => (p.next now draw).2.after asked

theorem rule_after (p : RetryPolicy) (asked : List (Instant × Nat)) :
    (p.after asked).rule = p.rule := by
  induction asked generalizing p with
  | nil => rfl
  | cons x asked ih => rw [after, ih, rule_next]

theorem drawn?_rule (p : RetryPolicy) (now : Instant) :
    p.rule.drawn? now = (p.drawn? now).map Backoff.rule := by
  cases p with
  | initial _ | fixedDailyAnchor _ _ | fromFailure _ _ => rfl
  | expectedDataMissing anchor zone b =>
    simp only [rule, drawn?]
    split <;> rfl

/-- However often delays have been asked for, the next one comes from a back-off with the same
bounds. -/
theorem exists_drawn?_after (h : p.drawn? now = some a) (asked : List (Instant × Nat)) :
    ∃ b, (p.after asked).drawn? now = some b ∧ b.minimum = a.minimum ∧ b.maximum = a.maximum := by
  have hrule : ((p.after asked).drawn? now).map Backoff.rule = some a.rule := by
    rw [← drawn?_rule, rule_after, drawn?_rule, h, Option.map_some]
  obtain ⟨b, hb, hab⟩ := Option.map_eq_some_iff.1 hrule
  obtain ⟨hmin, hmax, -⟩ := by simpa [Backoff.rule] using hab
  exact ⟨b, hb, hmin, hmax⟩

end RetryPolicy

/-! ## Policies after faults -/

namespace RetrySettings

/-- The first step of the back-off after a fault of some class, in seconds. -/
def firstStep (r : RetrySettings) (f : Fault) : Nat :=
  match f.kind with
  | .configuration => r.configurationErrorDelay
  | .dataIncomplete => r.dataMissingMinimumDelay
  | .communication | .parse | .cancelled =>
    if f.status? = some tooManyRequests then r.rateLimitedMinimumDelay else r.failureMinimumDelay

/-- The longest delay of the back-off after a fault of some class, in seconds. -/
def lastStep (r : RetrySettings) (f : Fault) : Nat :=
  match f.kind with
  | .configuration => r.configurationErrorDelay
  | .dataIncomplete => r.failureMaximumDelay
  | .communication | .parse | .cancelled =>
    if f.status? = some tooManyRequests then max r.failureMaximumDelay r.rateLimitedMinimumDelay
    else r.failureMaximumDelay

/-- A fault is answered with a back-off between the first step of its class and the longest. -/
theorem exists_drawn?_faultPolicy (r : RetrySettings) (f : Fault) {anchor : TimeOfDay} {zone : Zone}
    {now : Instant} (h : f.kind = .dataIncomplete → zone.hasReached anchor now) :
    ∃ b, (r.faultPolicy f anchor zone).drawn? now = some b ∧
      b.minimum = .ofSeconds (r.firstStep f) ∧ b.maximum = .ofSeconds (r.lastStep f) := by
  unfold faultPolicy firstStep lastStep
  cases hkind : f.kind with
  | configuration => exact ⟨_, rfl, rfl, rfl⟩
  | dataIncomplete => exact ⟨_, if_pos (h hkind), rfl, rfl⟩
  | communication | parse | cancelled =>
    by_cases hstatus : f.status? = some tooManyRequests
    · simp only [if_pos hstatus]
      exact ⟨_, rfl, rfl, rfl⟩
    · simp only [if_neg hstatus]
      exact ⟨_, rfl, rfl, rfl⟩

/-- The bounds of the back-off after a fault, by the class of the fault. -/
theorem steps_cases (r : RetrySettings) (f : Fault) :
    (f.kind = .configuration ∧ r.firstStep f = r.configurationErrorDelay ∧
      r.lastStep f = r.configurationErrorDelay) ∨
    (f.kind = .dataIncomplete ∧ r.firstStep f = r.dataMissingMinimumDelay ∧
      r.lastStep f = r.failureMaximumDelay) ∨
    (f.kind ≠ .dataIncomplete ∧ r.firstStep f = r.rateLimitedMinimumDelay ∧
      r.lastStep f = max r.failureMaximumDelay r.rateLimitedMinimumDelay) ∨
    (f.kind ≠ .dataIncomplete ∧ r.firstStep f = r.failureMinimumDelay ∧
      r.lastStep f = r.failureMaximumDelay) := by
  unfold firstStep lastStep
  cases f.kind with
  | configuration => exact .inl ⟨rfl, rfl, rfl⟩
  | dataIncomplete => exact .inr (.inl ⟨rfl, rfl, rfl⟩)
  | communication | parse | cancelled =>
    by_cases hstatus : f.status? = some tooManyRequests
    · exact .inr (.inr (.inl ⟨nofun, if_pos hstatus, if_pos hstatus⟩))
    · exact .inr (.inr (.inr ⟨nofun, if_neg hstatus, if_neg hstatus⟩))

theorem steps_of_configuration {r : RetrySettings} {f : Fault} (h : f.kind = .configuration) :
    r.firstStep f = r.configurationErrorDelay ∧ r.lastStep f = r.configurationErrorDelay := by
  simp only [firstStep, lastStep, h, and_self]

theorem lastStep_le (r : RetrySettings) (f : Fault) :
    r.lastStep f ≤ max (r.firstStep f) r.failureMaximumDelay := by
  rcases r.steps_cases f with ⟨-, hfirst, hlast⟩ | ⟨-, hfirst, hlast⟩ | ⟨-, hfirst, hlast⟩ |
    ⟨-, hfirst, hlast⟩ <;> omega

variable {c : Config} (f : Fault)

theorem steps_pos (hc : c.validate = .ok ()) :
    0 < c.retry.firstStep f ∧ 0 < c.retry.lastStep f := by
  have hdelays := (Config.rules_of_valid hc).2.1
  simp only [Config.delays, List.forall_mem_cons] at hdelays
  rcases c.retry.steps_cases f with ⟨-, hfirst, hlast⟩ | ⟨-, hfirst, hlast⟩ | ⟨-, hfirst, hlast⟩ |
    ⟨-, hfirst, hlast⟩ <;> omega

/-- Only while prices are missing may the first step of a valid configuration lie beyond the longest
delay. -/
theorem firstStep_le_lastStep_iff (hc : c.validate = .ok ()) :
    c.retry.firstStep f ≤ c.retry.lastStep f ↔
      (f.kind = .dataIncomplete →
        c.retry.dataMissingMinimumDelay ≤ c.retry.failureMaximumDelay) := by
  have hle := (Config.rules_of_valid hc).2.2
  rcases c.retry.steps_cases f with ⟨hkind, hfirst, hlast⟩ | ⟨hkind, hfirst, hlast⟩ |
    ⟨hkind, hfirst, hlast⟩ | ⟨hkind, hfirst, hlast⟩
  · simp [hkind, hfirst, hlast]
  · simp [hkind, hfirst, hlast]
  · exact iff_of_true (by omega) fun h => absurd h hkind
  · exact iff_of_true (by omega) fun h => absurd h hkind

/-- The delay after a fault, when some delays have been asked for since. -/
def delayAfter (r : RetrySettings) (f : Fault) (anchor : TimeOfDay) (zone : Zone)
    (asked : List (Instant × Nat)) (now : Instant) (draw : Nat) : Duration :=
  (((r.faultPolicy f anchor zone).after asked).next now draw).1

/-- The delay after a fault is drawn from a back-off between the first step and the longest. -/
theorem exists_delayAfter_eq (r : RetrySettings) (f : Fault) {anchor : TimeOfDay} {zone : Zone}
    {now : Instant} (h : f.kind = .dataIncomplete → zone.hasReached anchor now)
    (asked : List (Instant × Nat)) :
    ∃ b : Backoff, b.minimum = .ofSeconds (r.firstStep f) ∧ b.maximum = .ofSeconds (r.lastStep f) ∧
      ∀ draw, r.delayAfter f anchor zone asked now draw =
        (b.delay draw).longer RetryPolicy.shortestDelay := by
  obtain ⟨a, ha, hmin, hmax⟩ := r.exists_drawn?_faultPolicy f h
  obtain ⟨b, hb, hmin', hmax'⟩ := RetryPolicy.exists_drawn?_after ha asked
  exact ⟨b, hmin'.trans hmin, hmax'.trans hmax, fun draw => RetryPolicy.delay_of_drawn? hb draw⟩

variable {anchor : TimeOfDay} {zone : Zone} {now : Instant}

theorem delayAfter_le (hc : c.validate = .ok ())
    (hnow : f.kind = .dataIncomplete → zone.hasReached anchor now) (asked : List (Instant × Nat))
    (draw : Nat) : (c.retry.delayAfter f anchor zone asked now draw).nanos ≤
      max (c.retry.firstStep f) (c.retry.lastStep f) * nanosPerSecond := by
  obtain ⟨b, hmin, hmax, hdelay⟩ := c.retry.exists_delayAfter_eq f hnow asked
  have hle := b.delay_le draw
  have hpos := (steps_pos f hc).1
  rw [hmin, hmax] at hle
  rw [hdelay]
  simp only [Duration.longer, RetryPolicy.shortestDelay, Duration.ofSeconds,
    nanosPerSecond] at hle ⊢
  omega

theorem le_delayAfter (hle : c.retry.firstStep f ≤ c.retry.lastStep f)
    (hfits : c.retry.firstStep f * 1000 ≤ Backoff.maxMillis)
    (hnow : f.kind = .dataIncomplete → zone.hasReached anchor now) (asked : List (Instant × Nat))
    (draw : Nat) : c.retry.firstStep f * nanosPerSecond ≤
      (c.retry.delayAfter f anchor zone asked now draw).nanos := by
  obtain ⟨b, hmin, hmax, hdelay⟩ := c.retry.exists_delayAfter_eq f hnow asked
  have hbounds : b.minimum.nanos ≤ b.maximum.nanos := by
    rw [hmin, hmax]
    exact Nat.mul_le_mul_right _ hle
  have hdrawn := Backoff.minimum_le_delay hmin hbounds hfits draw
  rw [hmin] at hdrawn
  rw [hdelay]
  exact Nat.le_trans hdrawn (Nat.le_max_left _ _)

/-- When no delay lies below the first step, the first one without jitter does not. -/
theorem firstStep_le_of_delayAfter (hc : c.validate = .ok ())
    (hnow : f.kind = .dataIncomplete → zone.hasReached anchor now)
    (h : c.retry.firstStep f * nanosPerSecond ≤
      (c.retry.delayAfter f anchor zone [] now 0).nanos) :
    c.retry.firstStep f ≤ c.retry.lastStep f ∧
      c.retry.firstStep f * 1000 ≤ Backoff.maxMillis := by
  obtain ⟨b, -, hmax, hdelay⟩ := c.retry.exists_delayAfter_eq f hnow []
  obtain ⟨hlast, hmillis⟩ := Backoff.first_delay_le hmax
  have hpos := (steps_pos f hc).2
  have hsecond : 1000 ≤ Backoff.maxMillis := by decide
  rw [hdelay] at h
  generalize Backoff.maxMillis = count at hmillis hsecond ⊢
  simp only [Duration.longer, RetryPolicy.shortestDelay, Duration.ofSeconds, nanosPerSecond,
    Duration.nanosPerMilli] at *
  omega

/-- No delay after a fault exceeds the first step of its class or the longest delay after failures,
whichever is longer. None falls below the first step, and those after a fault of the configuration
are exactly that step, when its milliseconds can be counted and, while prices are missing, the first
step does not lie beyond the longest delay; otherwise the first delay may fall below. -/
theorem delays_after_fault (c : Config) (hc : c.validate = .ok ()) (f : Fault) (anchor : TimeOfDay)
    (zone : Zone) (now : Instant) (hnow : f.kind = .dataIncomplete → zone.hasReached anchor now) :
    (∀ asked draw, (c.retry.delayAfter f anchor zone asked now draw).nanos ≤
      max (c.retry.firstStep f) c.retry.failureMaximumDelay * nanosPerSecond) ∧
    ((∀ asked draw,
        c.retry.firstStep f * nanosPerSecond ≤
          (c.retry.delayAfter f anchor zone asked now draw).nanos ∧
        (f.kind = .configuration → c.retry.delayAfter f anchor zone asked now draw =
          .ofSeconds c.retry.configurationErrorDelay)) ↔
      c.retry.firstStep f * 1000 < UInt64.size ∧
        (f.kind = .dataIncomplete →
          c.retry.dataMissingMinimumDelay ≤ c.retry.failureMaximumDelay)) := by
  have hcount : c.retry.firstStep f * 1000 < UInt64.size ↔
      c.retry.firstStep f * 1000 ≤ Backoff.maxMillis := Nat.lt_iff_le_pred (by decide)
  rw [hcount, ← firstStep_le_lastStep_iff f hc]
  refine ⟨fun asked draw => ?_, fun h => ?_, fun ⟨hfits, hle⟩ asked draw => ?_⟩
  · refine Nat.le_trans (delayAfter_le f hc hnow asked draw) (Nat.mul_le_mul_right _ ?_)
    exact Nat.max_le.2 ⟨Nat.le_max_left _ _, c.retry.lastStep_le f⟩
  · exact (firstStep_le_of_delayAfter f hc hnow (h [] 0).1).symm
  · have hlower := le_delayAfter f hle hfits hnow asked draw
    refine ⟨hlower, fun hkind => congrArg Duration.mk (Nat.le_antisymm ?_ ?_)⟩
    -- The back-off after a fault of the configuration ends with its first step.
    · have hupper := delayAfter_le f hc hnow asked draw
      rwa [(steps_of_configuration hkind).1, (steps_of_configuration hkind).2,
        Nat.max_self] at hupper
    · rwa [(steps_of_configuration hkind).1] at hlower

/-- With the default settings, prices that are missing at half past one are asked for after ten
minutes to an hour, whatever has been asked for since. -/
theorem delays_after_fault_missing :
    Config.validate {} = .ok () ∧
    Zone.cet.hasReached { seconds := 46800 } (.ofSeconds 1675513800) ∧
    (∀ asked draw, 600 * nanosPerSecond ≤ (delayAfter {} (.dataIncomplete 13 5)
      { seconds := 46800 } .cet asked (.ofSeconds 1675513800) draw).nanos) ∧
    (∀ asked draw, (delayAfter {} (.dataIncomplete 13 5)
      { seconds := 46800 } .cet asked (.ofSeconds 1675513800) draw).nanos ≤
        3600 * nanosPerSecond) := by
  have hvalid : Config.validate {} = .ok () := by decide +kernel
  have hreached : Zone.cet.hasReached { seconds := 46800 } (.ofSeconds 1675513800) := by
    decide +kernel
  obtain ⟨hupper, hlower⟩ := delays_after_fault {} hvalid (.dataIncomplete 13 5)
    { seconds := 46800 } .cet (.ofSeconds 1675513800) fun _ => hreached
  exact ⟨hvalid, hreached, fun asked draw => (hlower.2 ⟨by decide, by decide⟩ asked draw).1, hupper⟩

/-- Prices that are missing are asked for after an hour, the longest delay after failures, when the
first step is set to two. -/
theorem delayAfter_lt_firstStep :
    Config.validate { retry := { dataMissingMinimumDelay := 7200 } } = .ok () ∧
    Zone.cet.hasReached { seconds := 46800 } (.ofSeconds 1675513800) ∧
    (delayAfter { dataMissingMinimumDelay := 7200 } (.dataIncomplete 13 5)
      { seconds := 46800 } .cet [] (.ofSeconds 1675513800) 0).nanos <
        firstStep { dataMissingMinimumDelay := 7200 } (.dataIncomplete 13 5) * nanosPerSecond := by
  decide +kernel

end RetrySettings

end HourlyPrices
