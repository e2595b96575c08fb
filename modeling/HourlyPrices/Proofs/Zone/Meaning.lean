import HourlyPrices.Proofs.Time.Calendar
import HourlyPrices.Proofs.Time.Hours
import HourlyPrices.Proofs.Zone.Gap

/-!
# What local times mean

A local time that is never shown lies in a gap, and it is moved forward: an hour later the clock is
past the gap in all zones (`Zone.exists_shows_hourLater`), unless the gap is the day that Apia left
out. There a time is read as UTC, and the clock shows a later time at that instant only from nine
o'clock on (`Zone.instantOf_shows_or_later`).
-/

namespace HourlyPrices

/-- The local time that is shown an hour later on the same wall. -/
def LocalTime.hourLater (l : LocalTime) : LocalTime := l.shift (Span.ofHours 1)

theorem LocalTime.seconds_hourLater (l : LocalTime) : l.hourLater.seconds = l.seconds + 3600 := by
  have hhour : (Span.ofHours 1).nanos = 3600000000000 := rfl
  rw [hourLater, shift, Instant.shift_of_second_le (by decide), hhour]
  change l.seconds + (l.nanos % 1000000000 + 3600000000000) / 1000000000 = l.seconds + 3600
  omega

theorem LocalTime.day_hourLater {l : LocalTime} (h : l.timeOfDay.hour < 23) :
    l.hourLater.day = l.day := by
  have hlater := l.seconds_hourLater
  simp only [timeOfDay, TimeOfDay.hour, day, secondsPerDay] at *
  omega

theorem LocalTime.lt_of_day_lt {a b : LocalTime} (h : a.day < b.day) : a.asUtc < b.asUtc := by
  refine .inl ?_
  simp only [day, secondsPerDay, asUtc] at h ⊢
  omega

namespace Zone

open OffsetTable

variable {z : Zone} {l : LocalTime} {t : Instant}

/-! ## Times that are never shown -/

/-- A local time that is never shown means what the time an hour later does, or that time as UTC. -/
theorem instantOf_of_skips (h : z.Skips l) :
    z.instantOf l = (z.first? l.hourLater).getD l.hourLater.asUtc := by
  rw [instantOf, first?_of_skips h, LocalTime.hourLater]
  dsimp only
  split
  · rename_i t hfirst
    rw [hfirst, Option.getD_some]
  · rename_i hfirst
    rw [hfirst, Option.getD_none]

/-- A local time that is never shown is moved forward by an hour when the clock shows that time. -/
theorem localTime_instantOf_of_skips (hskip : z.Skips l) (h : ∃ t, z.localTime t = l.hourLater) :
    z.localTime (z.instantOf l) = l.hourLater := by
  obtain ⟨u, hu⟩ := h
  rw [instantOf_of_skips hskip]
  cases hfirst : z.first? l.hourLater with
  | none => exact absurd hu ((first?_eq_none_iff z.sorted).1 hfirst u)
  | some t => exact ((first?_eq_some_iff z.sorted).1 hfirst).1

/-! ## The day that was left out -/

/-- The number of the 30th of December 2011. -/
def lostDay : Int := 15338

theorem date_eq_iff : l.date = ⟨2011, 12, 30⟩ ↔ l.day = lostDay := by
  constructor
  · intro h
    rw [← Date.dayNumber_ofDayNumber l.day, show Date.ofDayNumber l.day = _ from h]
    decide
  · intro h
    rw [LocalTime.date, h]
    decide

/-- In Apia the clocks were put forward by a day at the beginning of the lost day, which was at ten
o'clock in UTC. -/
def dateLine : Transition := ⟨lostDay * secondsPerDay + 36000, -36000, 50400⟩

/-- The clock in Apia never shows the lost day: it shows earlier days before the clocks are put
forward, and later ones since. -/
theorem dayAt_apia (t : Instant) :
    if t.seconds < dateLine.since then apia.dayAt t < lostDay else lostDay < apia.dayAt t := by
  have hbefore : apia.dayAt (.ofSeconds (dateLine.since - 1)) < lostDay := by decide +kernel
  have hafter : lostDay < apia.dayAt (.ofSeconds dateLine.since) := by decide +kernel
  split
  · rename_i h
    exact Int.lt_of_le_of_lt (apia.dayAt_le_of_seconds_le (Int.le_sub_one_of_lt h)) hbefore
  · rename_i h
    exact Int.lt_of_lt_of_le hafter (apia.dayAt_le_of_seconds_le (Int.not_lt.1 h))

theorem skips_apia (h : l.day = lostDay) : apia.Skips l := by
  rintro t rfl
  have hday := dayAt_apia t
  split at hday
  · exact Int.ne_of_lt hday h
  · exact Int.ne_of_gt hday h

/-- The clocks are put forward by an hour at most, but for the lost day. -/
theorem resumes_le (z : Zone) : ∀ x ∈ z.table.transitions,
    x.resumes ≤ x.leaves + secondsPerHour ∨ z = .apia ∧ x = dateLine := by
  cases z <;> decide +kernel

/-- An hour after a time that is never shown the clocks have been put forward, unless both times lie
in the lost day. -/
theorem exists_shows_hourLater (hskip : z.Skips l) :
    (∃ t, z.localTime t = l.hourLater) ∨
      z = .apia ∧ l.day = lostDay ∧ l.hourLater.day = lostDay := by
  have hnever : ∀ s, s + z.table.offsetAt s ≠ l.seconds := fun s hs =>
    hskip ⟨s, l.nanos, l.nanos_lt⟩ (localTime_eq_iff.2 ⟨hs, rfl⟩)
  obtain ⟨x, hx, hleaves, hresumes⟩ := exists_transitionFrom z.regular.spaced hnever
  have hlater := l.seconds_hourLater
  rcases Int.lt_or_le l.hourLater.seconds x.resumes with hgap | hpast
  · obtain hlength | ⟨rfl, rfl⟩ := z.resumes_le x hx
    · simp only [secondsPerHour] at hlength
      omega
    · refine .inr ⟨rfl, ?_⟩
      simp only [Transition.leaves, Transition.resumes, dateLine, lostDay, LocalTime.day,
        secondsPerDay] at *
      omega
  · -- The offset after the transition is still in force when it shows the time an hour later.
    have hoffset : z.table.offsetAt (l.hourLater.seconds - x.after) = x.after := by
      simp only [Transition.resumes] at hresumes hpast
      refine offsetFrom_of_transition z.regular.spaced hx (by omega) ?_
      simp only [secondsPerHour]
      omega
    exact .inl ⟨⟨l.hourLater.seconds - x.after, l.hourLater.nanos, l.hourLater.nanos_lt⟩,
      localTime_eq_iff.2 ⟨by rw [hoffset, Int.sub_add_cancel], rfl⟩⟩

/-- From nine o'clock of the lost day on, the time an hour later is not before the instant at which
the clocks are put forward. -/
theorem hour_lt_nine_iff (h : l.day = lostDay) :
    l.timeOfDay.hour < 9 ↔ l.hourLater.asUtc.seconds < dateLine.since := by
  have hlater := l.seconds_hourLater
  simp only [LocalTime.day, LocalTime.asUtc, LocalTime.timeOfDay, TimeOfDay.hour, dateLine, lostDay,
    secondsPerDay] at *
  omega

/-- In every zone, a local time that the clock shows means the first instant at which it does. One
that it never shows means an instant at which it shows a later time, except in the first nine hours
of the day that Apia left out. -/
theorem instantOf_shows_or_later (z : Zone) (l : LocalTime) :
    ((∃ t, z.localTime t = l) → IsLeast {t | z.localTime t = l} (z.instantOf l)) ∧
    (z.Skips l → (l.asUtc < (z.localTime (z.instantOf l)).asUtc ↔
      ¬ (z = .apia ∧ l.date = ⟨2011, 12, 30⟩ ∧ l.timeOfDay.hour < 9))) := by
  refine ⟨isLeast_instantOf, fun hskip => ?_⟩
  rw [date_eq_iff]
  rcases exists_shows_hourLater hskip with hshown | ⟨rfl, hday, hlaterDay⟩
  · rw [localTime_instantOf_of_skips hskip hshown]
    refine iff_of_true (.inl ?_) ?_
    · have hlater := l.seconds_hourLater
      simp only [LocalTime.asUtc]
      omega
    · rintro ⟨rfl, hday, hhour⟩
      obtain ⟨t, ht⟩ := hshown
      have hlaterDay := (LocalTime.day_hourLater (Nat.lt_trans hhour (by decide))).trans hday
      exact skips_apia hlaterDay t ht
  · have hreading := dayAt_apia l.hourLater.asUtc
    rw [instantOf_of_skips hskip, first?_of_skips (skips_apia hlaterDay), Option.getD_none,
      hour_lt_nine_iff hday]
    split at hreading
    · rename_i hbefore
      have hearlier := LocalTime.lt_of_day_lt (b := l) (hday ▸ hreading)
      exact iff_of_false (fun hlt => Instant.lt_irrefl _ (Instant.lt_trans hlt hearlier))
        (not_not_intro ⟨rfl, hday, hbefore⟩)
    · rename_i hsince
      exact iff_of_true (LocalTime.lt_of_day_lt (hday ▸ hreading)) fun h => hsince h.2.2

/-- On Lord Howe Island, where the clocks are changed by half an hour, a quarter past two was left
out in October 2023 and is moved forward, and a quarter to two came twice in April and means the
first one. -/
theorem instantOf_shows_or_later_lordHowe :
    lordHowe.Skips (.ofDate ⟨2023, 10, 1⟩ { seconds := 8100 }) ∧
    (LocalTime.ofDate ⟨2023, 10, 1⟩ { seconds := 8100 }).asUtc <
      (lordHowe.localTime (lordHowe.instantOf (.ofDate ⟨2023, 10, 1⟩ { seconds := 8100 }))).asUtc ∧
    lordHowe.localTime (.ofSeconds 1680362100) = .ofDate ⟨2023, 4, 2⟩ { seconds := 6300 } ∧
    IsLeast {t | lordHowe.localTime t = .ofDate ⟨2023, 4, 2⟩ { seconds := 6300 }}
      (lordHowe.instantOf (.ofDate ⟨2023, 4, 2⟩ { seconds := 6300 })) := by
  have hskip : lordHowe.Skips (.ofDate ⟨2023, 10, 1⟩ { seconds := 8100 }) :=
    (first?_eq_none_iff lordHowe.sorted).1 (by decide +kernel)
  have hshown : lordHowe.localTime (.ofSeconds 1680362100) =
      .ofDate ⟨2023, 4, 2⟩ { seconds := 6300 } := by decide +kernel
  exact ⟨hskip, ((instantOf_shows_or_later _ _).2 hskip).2 (fun h => nomatch h.1), hshown,
    (instantOf_shows_or_later _ _).1 ⟨_, hshown⟩⟩

/-- In Apia, five o'clock of the day that was left out means an instant of the day before. -/
theorem instantOf_lostDay_earlier :
    apia.Skips (.ofDate ⟨2011, 12, 30⟩ { seconds := 18000 }) ∧
    (apia.localTime (apia.instantOf (.ofDate ⟨2011, 12, 30⟩ { seconds := 18000 }))).asUtc <
      (LocalTime.ofDate ⟨2011, 12, 30⟩ { seconds := 18000 }).asUtc :=
  ⟨skips_apia (by decide), by decide +kernel⟩

end Zone

end HourlyPrices
