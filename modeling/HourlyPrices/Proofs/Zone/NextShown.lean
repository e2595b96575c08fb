import HourlyPrices.Proofs.Zone.Meaning
import HourlyPrices.Proofs.Zone.NextTime

/-!
# The next instant that shows a time of day

Local days follow each other in every zone, so what a time of day means today and tomorrow comes
before all instants of later days. The next instant that a time of day means is therefore the least
one after now at which the clock shows it for the first time on its day. It is the least one at
which the clock shows it at all unless the clock has shown it today and, being put back, shows it
again (`Zone.isLeast_nextAt_iff`).
-/

namespace HourlyPrices.Zone

variable {z : Zone} {time : TimeOfDay} {now t u : Instant} {n : Int}

/-- The clock of the zone shows a time of day at an instant. -/
def Shows (z : Zone) (time : TimeOfDay) (t : Instant) : Prop := (z.localTime t).timeOfDay = time

/-- The clock shows a time of day, and it has not shown it before on the same day. -/
def ShowsFirst (z : Zone) (time : TimeOfDay) (t : Instant) : Prop :=
  z.Shows time t ∧ ∀ u, z.Shows time u → z.dayAt u = z.dayAt t → t ≤ u

/-- On the day of an instant the clock has shown a time of day by then, and shows it again later. -/
def ShowsAgain (z : Zone) (time : TimeOfDay) (now : Instant) : Prop :=
  ∃ t u, t ≤ now ∧ now < u ∧ z.localTime t = .ofDay (z.dayAt now) time ∧
    z.localTime u = .ofDay (z.dayAt now) time

theorem localTime_eq_ofDay : z.localTime t = .ofDay n time ↔ z.dayAt t = n ∧ z.Shows time t := by
  constructor
  · intro h
    rw [dayAt, Shows, h]
    exact ⟨LocalTime.day_ofDay n time, LocalTime.timeOfDay_ofDay n time⟩
  · rintro ⟨rfl, rfl⟩
    exact (LocalTime.ofDay_day_timeOfDay _).symm

/-- A time of day that is shown at one second of the day is not shown again. -/
theorem not_showsAgain {s : Int}
    (h : z.table.showing (LocalTime.ofDay (z.dayAt now) time).seconds = [s]) :
    ¬ z.ShowsAgain time now := by
  have hsecond : ∀ t, z.localTime t = .ofDay (z.dayAt now) time → t.seconds = s := fun t ht =>
    List.mem_singleton.1 (h ▸ (OffsetTable.mem_showing z.sorted).2 (localTime_eq_iff.1 ht).1)
  rintro ⟨t, u, hle, hlt, ht, hu⟩
  have hnanos := (localTime_eq_iff.1 ht).2.trans (localTime_eq_iff.1 hu).2.symm
  have heq : t = u := Instant.ext_iff.2 ⟨(hsecond t ht).trans (hsecond u hu).symm, hnanos⟩
  exact Instant.lt_irrefl _ (Instant.lt_of_lt_of_le hlt (heq ▸ hle))

/-- What a time of day means on a day that shows it comes before all instants that show it on that
day or later. -/
theorem instantOf_le_of_shows (hshown : ∃ t, z.localTime t = .ofDay n time) (hday : n ≤ z.dayAt u)
    (hu : z.Shows time u) : z.instantOf (.ofDay n time) ≤ u := by
  obtain ⟨hmeant, hleast⟩ := isLeast_instantOf hshown
  rcases Int.lt_or_eq_of_le hday with hlt | rfl
  · refine Instant.le_of_lt (Instant.not_le.1 fun hle => ?_)
    have := z.dayAt_le_dayAt hle
    rw [(localTime_eq_ofDay.1 hmeant).1] at this
    omega
  · exact hleast (localTime_eq_ofDay.2 ⟨rfl, hu⟩)

theorem showsFirst_instantOf (hshown : ∃ t, z.localTime t = .ofDay n time) :
    z.dayAt (z.instantOf (.ofDay n time)) = n ∧
      z.ShowsFirst time (z.instantOf (.ofDay n time)) := by
  obtain ⟨hday, hshows⟩ := localTime_eq_ofDay.1 (isLeast_instantOf hshown).1
  refine ⟨hday, hshows, fun u hu hsame => ?_⟩
  exact instantOf_le_of_shows hshown (Int.le_of_eq (hsame.trans hday).symm) hu

/-- While today's time has not come it is next, and there is none between. -/
theorem isLeast_today (hshown : ∃ t, z.localTime t = .ofDay (z.dayAt now) time)
    (hnow : now < z.instantOf (.ofDay (z.dayAt now) time)) :
    IsLeast {t | now < t ∧ z.Shows time t} (z.instantOf (.ofDay (z.dayAt now) time)) :=
  ⟨⟨hnow, (showsFirst_instantOf hshown).2.1⟩, fun _ hu =>
    instantOf_le_of_shows hshown (z.dayAt_le_dayAt (Instant.le_of_lt hu.1)) hu.2⟩

theorem lt_instantOf_tomorrow (hshown : ∃ t, z.localTime t = .ofDay (z.dayAt now + 1) time) :
    now < z.instantOf (.ofDay (z.dayAt now + 1) time) := by
  refine Instant.not_le.1 fun hle => ?_
  have := z.dayAt_le_dayAt hle
  rw [(showsFirst_instantOf hshown).1] at this
  omega

/-- When today's time has come, tomorrow's is next, as far as today's is not shown again. -/
theorem isLeast_tomorrow_iff (htoday : ∃ t, z.localTime t = .ofDay (z.dayAt now) time)
    (htomorrow : ∃ t, z.localTime t = .ofDay (z.dayAt now + 1) time)
    (hpast : z.instantOf (.ofDay (z.dayAt now) time) ≤ now) :
    IsLeast {t | now < t ∧ z.Shows time t} (z.instantOf (.ofDay (z.dayAt now + 1) time)) ↔
      ¬ z.ShowsAgain time now := by
  obtain ⟨hday, hfirst⟩ := showsFirst_instantOf htomorrow
  constructor
  · rintro hleast ⟨t, u, -, hlt, -, hu⟩
    obtain ⟨hdayu, hshows⟩ := localTime_eq_ofDay.1 hu
    have := z.dayAt_le_dayAt (hleast.2 ⟨hlt, hshows⟩)
    omega
  · refine fun hnot => ⟨⟨lt_instantOf_tomorrow htomorrow, hfirst.1⟩, fun u hu => ?_⟩
    obtain ⟨hlt, hshows⟩ := hu
    have hdayu := z.dayAt_le_dayAt (Instant.le_of_lt hlt)
    rcases Int.lt_or_eq_of_le hdayu with hlater | htodayu
    · exact instantOf_le_of_shows htomorrow hlater hshows
    · exact absurd ⟨_, u, hpast, hlt, (isLeast_instantOf htoday).1,
        localTime_eq_ofDay.2 ⟨htodayu.symm, hshows⟩⟩ hnot

/-- When today's time has come, tomorrow's is the next that has not been shown on its day. -/
theorem isLeast_tomorrow_first (htoday : ∃ t, z.localTime t = .ofDay (z.dayAt now) time)
    (htomorrow : ∃ t, z.localTime t = .ofDay (z.dayAt now + 1) time)
    (hpast : z.instantOf (.ofDay (z.dayAt now) time) ≤ now) :
    IsLeast {t | now < t ∧ z.ShowsFirst time t} (z.instantOf (.ofDay (z.dayAt now + 1) time)) := by
  refine ⟨⟨lt_instantOf_tomorrow htomorrow, (showsFirst_instantOf htomorrow).2⟩, fun u hu => ?_⟩
  obtain ⟨hlt, hshows, hfirst⟩ := hu
  obtain ⟨hday, hshown, -⟩ := showsFirst_instantOf htoday
  rcases Int.lt_or_eq_of_le (z.dayAt_le_dayAt (Instant.le_of_lt hlt)) with hlater | htodayu
  · exact instantOf_le_of_shows htomorrow hlater hshows
  · have hle := Instant.le_trans (hfirst _ hshown (hday.trans htodayu)) hpast
    exact absurd hlt (Instant.not_lt.2 hle)

/-- When a time of day is shown today and tomorrow, the next instant that it means is the least one
after now at which the clock shows it for the first time on its day. It is the least one after now
at which the clock shows it exactly when the clock does not show it both by now and again later
today. -/
theorem isLeast_nextAt_iff (z : Zone) (time : TimeOfDay) (now : Instant)
    (hlast : z.dayAt now + 1 ≤ lastDay) (htoday : ∃ t, z.localTime t = .ofDay (z.dayAt now) time)
    (htomorrow : ∃ t, z.localTime t = .ofDay (z.dayAt now + 1) time) :
    (IsLeast {t | now < t ∧ z.Shows time t} (z.nextAt time now) ↔ ¬ z.ShowsAgain time now) ∧
      IsLeast {t | now < t ∧ z.ShowsFirst time t} (z.nextAt time now) := by
  unfold nextAt
  dsimp only
  split
  · rename_i hnow
    have hleast := isLeast_today htoday hnow
    refine ⟨iff_of_true hleast ?_, ⟨hnow, (showsFirst_instantOf htoday).2⟩, fun u hu => ?_⟩
    · rintro ⟨t, u, hle, -, ht, -⟩
      have hfirst := (isLeast_instantOf htoday).2 ht
      exact Instant.lt_irrefl _ (Instant.lt_of_lt_of_le hnow (Instant.le_trans hfirst hle))
    · exact hleast.2 ⟨hu.1, hu.2.1⟩
  · rename_i hpast
    rw [daysLater_of_le (by exact_mod_cast hlast)]
    have hpast := Instant.not_lt.1 hpast
    exact ⟨isLeast_tomorrow_iff htoday htomorrow hpast,
      isLeast_tomorrow_first htoday htomorrow hpast⟩

/-- Before a day on which half past two is shown twice, the first of the two is next. -/
theorem isLeast_nextAt_iff_beforeFold :
    cet.nextAt { seconds := 9000 } (.ofSeconds 1698494400) = .ofSeconds 1698539400 ∧
    IsLeast {t | .ofSeconds 1698494400 < t ∧ cet.Shows { seconds := 9000 } t}
      (cet.nextAt { seconds := 9000 } (.ofSeconds 1698494400)) :=
  ⟨by decide +kernel, (isLeast_nextAt_iff cet { seconds := 9000 } (.ofSeconds 1698494400)
    (by decide +kernel) ⟨.ofSeconds 1698453000, by decide +kernel⟩
    ⟨.ofSeconds 1698539400, by decide +kernel⟩).1.2
    (not_showsAgain (s := 1698453000) (by decide +kernel))⟩

/-- Between the two instants at which the clock shows half past two, that of tomorrow is taken to be
next. -/
theorem nextAt_not_isLeast_inFold :
    (∃ t, cet.localTime t = .ofDay (cet.dayAt (.ofSeconds 1698540300)) { seconds := 9000 }) ∧
    (∃ t, cet.localTime t = .ofDay (cet.dayAt (.ofSeconds 1698540300) + 1) { seconds := 9000 }) ∧
    ¬ IsLeast {t | .ofSeconds 1698540300 < t ∧ cet.Shows { seconds := 9000 } t}
      (cet.nextAt { seconds := 9000 } (.ofSeconds 1698540300)) := by
  refine ⟨⟨.ofSeconds 1698539400, by decide +kernel⟩, ⟨.ofSeconds 1698629400, by decide +kernel⟩,
    fun hleast => ?_⟩
  have hagain : cet.Shows { seconds := 9000 } (.ofSeconds 1698543000) := by
    unfold Shows
    decide +kernel
  have hnot : ¬ cet.nextAt { seconds := 9000 } (.ofSeconds 1698540300) ≤ .ofSeconds 1698543000 := by
    decide +kernel
  exact hnot (hleast.2 ⟨by decide, hagain⟩)

end HourlyPrices.Zone
