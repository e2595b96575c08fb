import HourlyPrices.Proofs.Zone.CentralEurope
import HourlyPrices.Retry.Policy

/-!
# The next time of day

In central Europe the wait for a time of day ends before the end of tomorrow, with one exception:
it may end with it when both the time of day and the clock stand within a leap second at the end of
their day, and tomorrow has 25 hours (`Zone.nextAt_wait_le`).
-/

namespace HourlyPrices

open OffsetTable

namespace Zone

variable {z : Zone} {n : Int} {time : TimeOfDay} {now : Instant}

theorem dayAt_congr {y : Zone} (h : y.table = z.table) (t : Instant) : y.dayAt t = z.dayAt t := by
  rw [dayAt, dayAt, localTime, localTime, h]

theorem daysLater_of_le {m : Nat} (h : n + m ≤ lastDay) : daysLater n m = n + m := if_pos h

/-- The next time of day is that of today or, when it has gone by, that of tomorrow. -/
theorem nextAt_cases (h : z.dayAt now + 1 ≤ lastDay) (time : TimeOfDay) :
    z.nextAt time now = z.instantOf (.ofDay (z.dayAt now) time) ∨
      z.nextAt time now = z.instantOf (.ofDay (z.dayAt now + 1) time) ∧
        z.instantOf (.ofDay (z.dayAt now) time) ≤ now := by
  unfold nextAt
  dsimp only
  split
  · exact .inl rfl
  · rename_i hpast
    refine .inr ⟨?_, Instant.not_lt.1 hpast⟩
    rw [daysLater_of_le (by exact_mod_cast h)]
    rfl

theorem seconds_lt_dayStart (hz : z.table = .centralEurope) (n : Int) (time : TimeOfDay) :
    (z.instantOf (.ofDay n time)).seconds < dayStart (n + 1) := by
  apply (dayAt_lt_iff hz).1
  rw [dayAt_instantOf_ofDay hz]
  omega

/-- The last second of a day is that of the last time of day. -/
theorem seconds_eq_last_iff (hz : z.table = .centralEurope) :
    (z.instantOf (.ofDay n time)).seconds = dayStart (n + 1) - 1 ↔ time.seconds = 86399 := by
  have hlt := time.seconds_lt
  have hprev := seasonOffset_cases (n - 1)
  have hown := seasonOffset_cases n
  rw [(instantOf_ofDay hz n time).1, dayStart, Int.add_sub_cancel, offsetOn]
  simp only [secondsPerDay] at hlt
  split <;> omega

/-! ## The wait -/

/-- Between two instants a leap second counts at most where the span starts, and only when the clock
of UTC shows an earlier time of day there than at its end. -/
theorem since_nanos_leap (a now : Instant) : ∃ leap : Int,
    (a.since now).nanos =
      (a.seconds - now.seconds + leap) * nanosPerSecond + ((a.nanos : Int) - now.nanos) ∧
    (leap ≤ 0 ∨ leap = 1 ∧ nanosPerSecond ≤ now.nanos ∧
      now.seconds % secondsPerDay < a.seconds % secondsPerDay) := by
  refine ⟨_, rfl, ?_⟩
  split
  · split
    · exact .inr ⟨rfl, ‹_›, ‹_›⟩
    · exact .inl (by decide)
  · split
    · split <;> exact .inl (by decide)
    · exact .inl (by decide)

/-- The wait for an instant, of a second at least, ends a second from now or not after the instant.
When it starts within a leap second that does not count for it, it ends a second earlier. -/
theorem wait_cases (now a : Instant) {u : Instant}
    (hu : u = now.shift ((Duration.ofSpan (a.since now)).longer RetryPolicy.shortestDelay).toSpan) :
    u.seconds = now.seconds + 1 ∨ u.position ≤ a.position ∧
      (nanosPerSecond ≤ now.nanos →
        now.seconds % secondsPerDay < a.seconds % secondsPerDay ∨
          u.position ≤ a.position - nanosPerSecond) := by
  obtain ⟨leap, hspan, hleap⟩ := since_nanos_leap a now
  have hdelay : ((Duration.ofSpan (a.since now)).longer RetryPolicy.shortestDelay).toSpan.nanos =
      max (a.since now).nanos nanosPerSecond := by
    simp only [Duration.toSpan, Duration.longer, Duration.ofSpan, RetryPolicy.shortestDelay,
      Duration.ofSeconds, nanosPerSecond]
    omega
  obtain ⟨hpos, hnanos, -⟩ := Instant.position_shift (t := now)
    (hdelay ▸ Int.le_max_right _ _ : (nanosPerSecond : Int) ≤ _)
  rw [← hu, hdelay] at hpos
  rw [← hu] at hnanos
  have hlt := now.nanos_lt
  simp only [Instant.position, nanosPerSecond] at *
  omega

/-- When the time of day of tomorrow lies in the last second of tomorrow, and that of today has gone
by, today is in its last second too, and not before the time of day. -/
theorem last_of_tomorrow (hz : z.table = .centralEurope)
    (hlast : (z.instantOf (.ofDay (z.dayAt now + 1) time)).seconds =
      dayStart (z.dayAt now + 2) - 1)
    (hpast : z.instantOf (.ofDay (z.dayAt now) time) ≤ now) :
    time.seconds = 86399 ∧ (z.instantOf (.ofDay (z.dayAt now + 1) time)).nanos = time.nanos ∧
      now.seconds = dayStart (z.dayAt now + 1) - 1 ∧ time.nanos ≤ now.nanos := by
  have htime : time.seconds = 86399 := (seconds_eq_last_iff hz).1 (by
    rw [hlast, Int.add_assoc]
    rfl)
  have htoday : now.seconds < dayStart (z.dayAt now + 1) := (dayAt_lt_iff hz).1 (by omega)
  have hsec := (seconds_eq_last_iff (n := z.dayAt now) hz).2 htime
  have hnan := (instantOf_ofDay hz (z.dayAt now) time).2.2 (by omega)
  have hnan' := (instantOf_ofDay hz (z.dayAt now + 1) time).2.2 (by omega)
  rw [Instant.le_def] at hpast
  omega

/-- The wait for the next time of day, or for a second, does not end after the end of tomorrow. It
ends with tomorrow only if the time of day and the clock stand within a leap second at the end of
the day, and tomorrow has 25 hours. -/
theorem nextAt_wait_le (hz : z.table = .centralEurope) (hlast : z.dayAt now + 1 ≤ lastDay)
    (htime : time.nanos ≤ nanosPerSecond) {u : Instant}
    (hu : u.nanos < nanosPerSecond) (hwait : u.seconds = now.seconds + 1 ∨
      u = now.shift ((RetryPolicy.untilNext time z now).longer RetryPolicy.shortestDelay).toSpan) :
    u < z.midnight (z.dayAt now + 2) ∨
      u = z.midnight (z.dayAt now + 2) ∧ time.seconds = 86399 ∧ time.nanos = nanosPerSecond ∧
        nanosPerSecond ≤ now.nanos ∧
        dayStart (z.dayAt now + 2) = dayStart (z.dayAt now + 1) + 90000 := by
  have htoday : now.seconds < dayStart (z.dayAt now + 1) := (dayAt_lt_iff hz).1 (by omega)
  have hlength := dayStart_sub_dayStart (z.dayAt now + 1)
  rw [Int.add_sub_cancel, show z.dayAt now + 1 + 1 = z.dayAt now + 2 by omega] at hlength
  have hown := seasonOffset_cases (z.dayAt now)
  have hnext := seasonOffset_cases (z.dayAt now + 1)
  rw [midnight_eq hz, Instant.lt_def, Instant.ext_iff]
  simp only [Instant.ofSeconds]
  obtain hsecond | ⟨hpos, hleap⟩ : u.seconds = now.seconds + 1 ∨ _ :=
    hwait.elim .inl fun h => wait_cases now (z.nextAt time now) h
  · exact .inl (.inl (by omega))
  obtain ha | ⟨ha, hpast⟩ := nextAt_cases hlast time
  · rw [ha] at hpos
    have hsec := seconds_lt_dayStart hz (z.dayAt now) time
    have hnan := (instantOf_ofDay hz (z.dayAt now) time).2.1
    simp only [Instant.position, nanosPerSecond] at hpos htime
    exact .inl (.inl (by omega))
  · rw [ha] at hpos hleap
    have hsec := seconds_lt_dayStart hz (z.dayAt now + 1) time
    rw [show z.dayAt now + 1 + 1 = z.dayAt now + 2 by omega] at hsec
    have hnan := (instantOf_ofDay hz (z.dayAt now + 1) time).2.1
    by_cases hend : (z.instantOf (.ofDay (z.dayAt now + 1) time)).seconds =
        dayStart (z.dayAt now + 2) - 1
    · obtain ⟨htime', hnan', hnow, hle⟩ := last_of_tomorrow hz hend hpast
      have hday : dayStart (z.dayAt now + 1) =
          (z.dayAt now + 1) * 86400 - seasonOffset (z.dayAt now) := by
        rw [dayStart, Int.add_sub_cancel]
      simp only [Instant.position, nanosPerSecond, secondsPerDay] at *
      by_cases hleapTime : time.nanos = 1000000000
      · have hclock : 1000000000 ≤ now.nanos := by omega
        obtain hearlier | hless := hleap hclock
        · -- The clock of UTC shows a later time at the end of tomorrow: tomorrow is longer.
          have hlonger : dayStart (z.dayAt now + 2) = dayStart (z.dayAt now + 1) + 90000 := by omega
          rcases Int.lt_or_le u.seconds (dayStart (z.dayAt now + 2)) with hlt | hle'
          · exact .inl (.inl hlt)
          · exact .inr ⟨by omega, htime', hleapTime, hclock, hlonger⟩
        · exact .inl (.inl (by omega))
      · exact .inl (.inl (by omega))
    · simp only [Instant.position, nanosPerSecond] at hpos htime
      exact .inl (.inl (by omega))

end Zone

end HourlyPrices
