import HourlyPrices.Proofs.Retry.Draws

/-!
# The course of a back-off

However many delays are drawn from a back-off, the one with number `k` lies between the minimum
doubled `k` times, but not more than sixteen times, and the maximum, and above the former by less
than the jitter (`Backoff.delays_of_draws`). The count of attempts stops at its bound, far behind
the last doubling, so the steps never begin again.
-/

namespace HourlyPrices.Backoff

variable {b : Backoff} {m n : Nat}

/-! ## One delay -/

/-- The bounds of a back-off are whole milliseconds, in order, and the milliseconds can be
counted. -/
structure InMillis (b : Backoff) (m n : Nat) : Prop where
  minimum : b.minimum = .ofMillis m
  maximum : b.maximum = .ofMillis n
  le : m ≤ n
  lt : n < UInt64.size

/-- The milliseconds of the step with number `k`: the minimum doubled `k` times, but not more than
sixteen times, and at most the maximum. -/
def stepMillis (m n k : Nat) : Nat := min (m * 2 ^ min k 16) n

theorem stepMillis_mono {i k : Nat} (h : i ≤ k) : stepMillis m n i ≤ stepMillis m n k := by
  have hpow : 2 ^ min i 16 ≤ 2 ^ min k 16 := Nat.pow_le_pow_right (by decide) (by omega)
  have hdoubled := Nat.mul_le_mul_left m hpow
  rw [stepMillis, stepMillis]
  omega

/-- The count of attempts stops where the steps have long stopped. -/
theorem stepMillis_min_maxAttempt (m n k : Nat) :
    stepMillis m n (min k maxAttempt) = stepMillis m n k := by
  have hmax : 16 ≤ maxAttempt := by decide
  have hdoublings : min (min k maxAttempt) 16 = min k 16 := by omega
  rw [stepMillis, hdoublings, stepMillis]

theorem millis_ofMillis (x : Nat) : (Duration.ofMillis x).millis = x :=
  Nat.mul_div_cancel x (by decide)

theorem InMillis.base_eq (hb : b.InMillis m n) : b.base = .ofMillis (stepMillis m n b.attempt) := by
  have hlongest : UInt64.size * Duration.nanosPerMilli ≤ Duration.longest.nanos := by decide
  have hmax : b.maximum.nanos ≤ Duration.longest.nanos := by
    rw [hb.maximum]
    exact Nat.le_trans (Nat.mul_le_mul_right _ (Nat.le_of_lt hb.lt)) hlongest
  have hbase := base_nanos (b := b) (.inr hmax)
  rw [hb.minimum, hb.maximum] at hbase
  refine congrArg Duration.mk (hbase.trans ?_)
  rw [stepMillis, ← Nat.mul_min_mul_right, Nat.mul_right_comm]
  rfl

theorem jitterRange_pos (b : Backoff) : 0 < b.jitterRange := by
  unfold jitterRange
  split <;> omega

/-- The jitter is drawn among the milliseconds of its share of the step, at least one. -/
theorem jitterRange_le (b : Backoff) :
    b.jitterRange ≤ max 1 (b.base.millis * b.jitterPercent / 100) := by
  unfold jitterRange
  split
  · exact Nat.le_max_left _ _
  · have hcounted := Nat.mul_le_mul_right b.jitterPercent (Nat.min_le_left b.base.millis maxMillis)
    have hshare := Nat.div_le_div_right (c := 100)
      (Nat.le_trans (Nat.min_le_left (min b.base.millis maxMillis * b.jitterPercent) maxMillis)
        hcounted)
    omega

/-- A delay is its step and what is drawn of the jitter, at most the maximum. -/
theorem InMillis.delay_eq (hb : b.InMillis m n) (draw : Nat) :
    b.delay draw = .ofMillis (min (stepMillis m n b.attempt + draw % b.jitterRange) n) := by
  have hstep : stepMillis m n b.attempt ≤ n := Nat.min_le_right _ _
  have hcount : n ≤ maxMillis := Nat.le_pred_of_lt hb.lt
  have hmillis : min b.base.millis maxMillis = stepMillis m n b.attempt := by
    rw [hb.base_eq, millis_ofMillis]
    omega
  have hbounds : max b.maximum.nanos b.minimum.nanos = n * Duration.nanosPerMilli := by
    rw [hb.maximum, hb.minimum]
    exact Nat.max_eq_left (Nat.mul_le_mul_right _ hb.le)
  simp only [delay, hmillis, Duration.shorter, Duration.longer, hbounds, Duration.ofMillis]
  rw [Nat.mul_min_mul_right]
  congr 2
  omega

/-- A delay lies between its step and the maximum, and exceeds its step by less than the jitter. -/
theorem InMillis.delay_bounds (hb : b.InMillis m n) (draw : Nat) :
    ∃ x, b.delay draw = .ofMillis x ∧ stepMillis m n b.attempt ≤ x ∧ x ≤ n ∧
      x < stepMillis m n b.attempt +
        max 1 (stepMillis m n b.attempt * b.jitterPercent / 100) := by
  have hstep : stepMillis m n b.attempt ≤ n := Nat.min_le_right _ _
  have hdraw := Nat.mod_lt draw b.jitterRange_pos
  have hrange := b.jitterRange_le
  rw [hb.base_eq, millis_ofMillis] at hrange
  exact ⟨_, hb.delay_eq draw, by omega, by omega, by omega⟩

/-! ## One delay after the other -/

/-- The back-off behind some delays, each decided by a draw. -/
def after (b : Backoff) : List Nat → Backoff
  | [] => b
  | _ :: draws => b.next.after draws

/-- The delays that some draws decide, one after the other. -/
def delays (b : Backoff) : List Nat → List Duration
  | [] => []
  | draw :: draws => b.delay draw :: b.next.delays draws

theorem rule_after (b : Backoff) (draws : List Nat) : (b.after draws).rule = b.rule := by
  induction draws generalizing b with
  | nil => rfl
  | cons draw draws ih => exact ih b.next

theorem InMillis.after (hb : b.InMillis m n) (draws : List Nat) :
    (b.after draws).InMillis m n := by
  have hrule := b.rule_after draws
  simp only [rule, Backoff.mk.injEq] at hrule
  exact ⟨hrule.1.trans hb.minimum, hrule.2.1.trans hb.maximum, hb.le, hb.lt⟩

/-- Attempts are counted up to the bound of the count. -/
theorem attempt_after (h : b.attempt ≤ maxAttempt) (draws : List Nat) :
    (b.after draws).attempt = min (b.attempt + draws.length) maxAttempt := by
  induction draws generalizing b with
  | nil => exact (Nat.min_eq_left h).symm
  | cons draw draws ih =>
    have hnext : b.next.attempt = min (b.attempt + 1) maxAttempt := rfl
    rw [Backoff.after, ih (hnext ▸ Nat.min_le_right _ _), hnext, List.length_cons]
    omega

theorem length_delays (b : Backoff) (draws : List Nat) :
    (b.delays draws).length = draws.length := by
  induction draws generalizing b with
  | nil => rfl
  | cons draw draws ih => exact congrArg (· + 1) (ih b.next)

/-- Each delay is that of the back-off behind the delays before it. -/
theorem getElem?_delays (b : Backoff) (draws : List Nat) (k : Nat) :
    (b.delays draws)[k]? = draws[k]?.map (b.after (draws.take k)).delay := by
  induction draws generalizing b k with
  | nil => rfl
  | cons draw draws ih =>
    cases k with
    | zero => rfl
    | succ k => exact ih b.next k

/-- There is a delay for each draw. The one with number `k` is a number of whole milliseconds, from
the step with that number to the maximum, and exceeds the step by less than the jitter. No later
step is shorter, and the attempts are counted up to the bound of the count. -/
theorem delays_of_draws (b : Backoff) (hb : b.InMillis m n) (hfirst : b.attempt = 0)
    (draws : List Nat) :
    (b.delays draws).length = draws.length ∧
      (b.after draws).attempt = min draws.length maxAttempt ∧
      ∀ k d, (b.delays draws)[k]? = some d →
        (∀ i ≤ k, stepMillis m n i ≤ stepMillis m n k) ∧
        ∃ x, d = .ofMillis x ∧ stepMillis m n k ≤ x ∧ x ≤ n ∧
          x < stepMillis m n k + max 1 (stepMillis m n k * b.jitterPercent / 100) := by
  have hattempt : ∀ draws : List Nat, (b.after draws).attempt = min draws.length maxAttempt := by
    intro draws
    rw [attempt_after (by omega), hfirst, Nat.zero_add]
  refine ⟨b.length_delays draws, hattempt draws, fun k d hd => ⟨fun i => stepMillis_mono, ?_⟩⟩
  rw [getElem?_delays, Option.map_eq_some_iff] at hd
  obtain ⟨draw, hdraw, rfl⟩ := hd
  have hk : k < draws.length := (List.getElem?_eq_some_iff.1 hdraw).1
  have hjitter : (b.after (draws.take k)).jitterPercent = b.jitterPercent := by
    have hrule := b.rule_after (draws.take k)
    simp only [rule, Backoff.mk.injEq] at hrule
    exact hrule.2.2.1
  have hbounds := (hb.after (draws.take k)).delay_bounds draw
  rwa [hattempt, List.length_take_of_le (Nat.le_of_lt hk), stepMillis_min_maxAttempt,
    hjitter] at hbounds

/-- A back-off between 100 milliseconds and two seconds with a jitter of a fifth: its third delay
lies between 400 and 480 milliseconds. -/
theorem delays_of_draws_third :
    ∃ b : Backoff, b.InMillis 100 2000 ∧ b.attempt = 0 ∧
      b.delays [7, 45, 1979] = [.ofMillis 107, .ofMillis 205, .ofMillis 459] ∧
      ∃ x, Duration.ofMillis 459 = .ofMillis x ∧ 400 ≤ x ∧ x ≤ 2000 ∧ x < 400 + 80 := by
  have hb : InMillis ⟨.ofMillis 100, .ofMillis 2000, 20, 0⟩ 100 2000 :=
    ⟨rfl, rfl, by decide, by decide⟩
  exact ⟨_, hb, rfl, by decide, ((delays_of_draws _ hb rfl [7, 45, 1979]).2.2 2 _ rfl).2⟩

end HourlyPrices.Backoff
