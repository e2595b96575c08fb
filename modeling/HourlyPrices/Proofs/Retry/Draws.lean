import HourlyPrices.Proofs.Retry.Policy
import Mathlib.Algebra.Ring.Nat

/-!
# Drawing delays

A policy is its rule and the number of delays that its back-off has given so far. Two policies
follow the same rule when they differ in that number alone (`RetryPolicy.sameRule_iff`), and drawing
a delay changes nothing but the number (`RetryPolicy.rule_next`, `RetryPolicy.attempts_next`). A
steady back-off, whose bounds are whole seconds and which has no jitter, gives the minimum doubled
once for each attempt, up to the maximum (`Backoff.Steady.delay_nanos`).
-/

namespace HourlyPrices

namespace Backoff

variable {b : Backoff}

/-- The back-off before its first attempt. -/
def rule (b : Backoff) : Backoff := { b with attempt := 0 }

theorem sameRule_iff {a b : Backoff} : a.sameRule b ↔ a.rule = b.rule := by
  simp [sameRule, rule, and_assoc]

@[simp] theorem rule_next (b : Backoff) : b.next.rule = b.rule := rfl

/-- The delays of a back-off are determined by its attempts and its bounds, which are whole
seconds. -/
structure Steady (b : Backoff) : Prop where
  jitter : b.jitterPercent = 0
  minimum : ∃ n, b.minimum = .ofSeconds n
  maximum : ∃ n, b.maximum = .ofSeconds n

theorem Steady.of_rule {a : Backoff} (ha : a.Steady) (h : b.rule = a.rule) : b.Steady := by
  obtain ⟨hmin, hmax, hjitter⟩ := by simpa [rule] using h
  exact ⟨hjitter ▸ ha.jitter, hmin ▸ ha.minimum, hmax ▸ ha.maximum⟩

/-- Doublings stop at the maximum. -/
theorem base_nanos (h : b.minimum.nanos * 2 ^ min b.attempt maxDoublings ≤ Duration.longest.nanos ∨
      b.maximum.nanos ≤ Duration.longest.nanos) :
    b.base.nanos = min (b.minimum.nanos * 2 ^ min b.attempt maxDoublings) b.maximum.nanos := by
  simp only [base, Duration.times, Duration.shorter, Nat.pow_eq]
  omega

/-- Whole seconds are whole milliseconds. -/
theorem Steady.millis_base (hb : b.Steady)
    (h : b.base.nanos = min (b.minimum.nanos * 2 ^ min b.attempt maxDoublings) b.maximum.nanos) :
    b.base.millis * Duration.nanosPerMilli = b.base.nanos := by
  obtain ⟨m, hm⟩ := hb.minimum
  obtain ⟨n, hn⟩ := hb.maximum
  have hdvd : Duration.nanosPerMilli ∣ b.base.nanos := by
    have hsecond : Duration.nanosPerMilli ∣ nanosPerSecond := by decide
    rw [h, hm, hn]
    rcases Nat.le_total ((Duration.ofSeconds m).nanos * 2 ^ min b.attempt maxDoublings)
        (Duration.ofSeconds n).nanos with hle | hle
    · rw [Nat.min_eq_left hle]
      exact Nat.dvd_mul_right_of_dvd (Nat.dvd_mul_left_of_dvd hsecond m) _
    · rw [Nat.min_eq_right hle]
      exact Nat.dvd_mul_left_of_dvd hsecond n
  exact Nat.div_mul_cancel hdvd

/-- The delay of a steady back-off, while it fits the count of milliseconds. -/
theorem Steady.delay_nanos (hb : b.Steady) (draw : Nat)
    (hfits : min (b.minimum.nanos * 2 ^ min b.attempt maxDoublings) b.maximum.nanos <
      UInt64.size * Duration.nanosPerMilli) :
    (b.delay draw).nanos =
      min (b.minimum.nanos * 2 ^ min b.attempt maxDoublings) b.maximum.nanos := by
  have hlongest : UInt64.size * Duration.nanosPerMilli ≤ Duration.longest.nanos := by decide
  have hbase := base_nanos (b := b) (by omega)
  have hmillis := hb.millis_base hbase
  have hrange : b.jitterRange = 1 := by rw [jitterRange, if_pos hb.jitter]
  have hmax : maxMillis = UInt64.size - 1 := rfl
  have hle : b.base.millis ≤ maxMillis := by
    simp only [Duration.nanosPerMilli, UInt64.size] at hfits hmax hmillis
    omega
  rw [delay, hrange, Nat.mod_one, Nat.add_zero, Nat.min_eq_left hle, Nat.min_eq_left hle]
  simp only [Duration.ofMillis, Duration.shorter, Duration.longer, hmillis, hbase]
  omega

end Backoff

namespace RetryPolicy

variable {p q : RetryPolicy} {now : Instant} {b : Backoff}

/-- The policy before its first delay. -/
def rule : RetryPolicy → RetryPolicy
  | expectedDataMissing anchor zone b => expectedDataMissing anchor zone b.rule
  | fromFailure failure b => fromFailure failure b.rule
  | initial d => initial d
  | fixedDailyAnchor time zone => fixedDailyAnchor time zone

/-- The back-off of a policy, if it has one. -/
def backoff? : RetryPolicy → Option Backoff
  | expectedDataMissing _ _ b => some b
  | fromFailure _ b => some b
  | initial _ => none
  | fixedDailyAnchor _ _ => none

/-- The number of delays that the back-off of a policy has given, as far as it is counted. -/
def attempts (p : RetryPolicy) : Nat := (p.backoff?.map Backoff.attempt).getD 0

/-- The back-off that gives the delay at an instant, if one does: that of a failure, and that of
missing prices when they should have been published. -/
def drawn? (now : Instant) : RetryPolicy → Option Backoff
  | fromFailure _ b => some b
  | expectedDataMissing anchor zone b => if zone.hasReached anchor now then some b else none
  | initial _ => none
  | fixedDailyAnchor _ _ => none

theorem sameRule_iff : p.sameRule q ↔ p.rule = q.rule := by
  cases p <;> cases q <;> simp [sameRule, rule, Backoff.sameRule_iff, and_assoc]

theorem backoff?_of_drawn? (h : p.drawn? now = some b) : p.backoff? = some b := by
  cases p with
  | initial _ | fixedDailyAnchor _ _ => cases h
  | fromFailure _ _ => exact h
  | expectedDataMissing anchor zone c =>
    rw [drawn?] at h
    split at h
    · exact h
    · cases h

theorem attempts_of_drawn? (h : p.drawn? now = some b) : p.attempts = b.attempt := by
  rw [attempts, backoff?_of_drawn? h]
  rfl

theorem backoff?_rule (p : RetryPolicy) : p.rule.backoff? = p.backoff?.map Backoff.rule := by
  cases p <;> rfl

theorem rule_eq_self (h : p.attempts = 0) : p.rule = p := by
  cases p with
  | initial _ | fixedDailyAnchor _ _ => rfl
  | expectedDataMissing _ _ b | fromFailure _ b =>
    have hattempt : b.attempt = 0 := h
    rw [rule, Backoff.rule, ← hattempt]

theorem eq_of_rule_fixedDailyAnchor {time : TimeOfDay} {zone : Zone}
    (h : p.rule = .fixedDailyAnchor time zone) : p = .fixedDailyAnchor time zone := by
  cases p with
  | fixedDailyAnchor _ _ => exact h
  | initial _ | expectedDataMissing _ _ _ | fromFailure _ _ => cases h

/-! ## Drawing -/

theorem delay_of_drawn? (h : p.drawn? now = some b) (draw : Nat) :
    (p.next now draw).1 = (b.delay draw).longer shortestDelay := by
  cases p with
  | initial _ | fixedDailyAnchor _ _ => cases h
  | fromFailure _ _ =>
    cases h
    rfl
  | expectedDataMissing anchor zone c =>
    rw [drawn?] at h
    split at h
    · rename_i hreached
      cases h
      simp only [next, if_pos hreached]
    · cases h

theorem rule_next (p : RetryPolicy) (now : Instant) (draw : Nat) :
    (p.next now draw).2.rule = p.rule :=
  (sameRule_iff.1 ((sameRule_next p p now draw).trans (sameRule_refl p))).symm

theorem attempts_next (p : RetryPolicy) (now : Instant) (draw : Nat) :
    (p.next now draw).2.attempts =
      if (p.drawn? now).isSome then min (p.attempts + 1) Backoff.maxAttempt else p.attempts := by
  cases p with
  | initial _ | fixedDailyAnchor _ _ | fromFailure _ _ => rfl
  | expectedDataMissing anchor zone b =>
    by_cases hreached : zone.hasReached anchor now
    · simp only [next, drawn?, hreached, if_true]
      rfl
    · simp only [next, drawn?, hreached, Bool.false_eq_true, if_false]
      rfl

/-- A policy whose back-off, if it has one, is steady. -/
def Steady (p : RetryPolicy) : Prop := ∀ b, p.backoff? = some b → b.Steady

theorem Steady.of_rule (hq : q.Steady) (h : p.rule = q.rule) : p.Steady := by
  intro b hb
  have hrule : q.backoff?.map Backoff.rule = some b.rule := by
    rw [← backoff?_rule, ← h, backoff?_rule, hb, Option.map_some]
  obtain ⟨a, ha, hab⟩ := Option.map_eq_some_iff.1 hrule
  exact (hq a ha).of_rule hab.symm

end RetryPolicy

end HourlyPrices
