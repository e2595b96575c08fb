import HourlyPrices.Proofs.Zone.CentralEurope
import Mathlib.Order.Bounds.Basic

/-!
# Local times in order

A local time that the clock shows means the first instant at which it does
(`Zone.isLeast_instantOf`). In central Europe the order of local times is the order of the instants
that they mean, with one exception. A time that the clock never shows is moved forward by an hour,
behind the first times that are shown again. So it may come after a clock hour at which a later
local time has been reached (`Zone.instantOf_le_of_le`), namely the hour that begins with summer
time.
-/

namespace HourlyPrices

open OffsetTable

namespace Zone

variable {z : Zone} {l m : LocalTime} {t h : Instant}

/-- The clock of the zone never shows a local time. -/
def Skips (z : Zone) (l : LocalTime) : Prop := ∀ t, z.localTime t ≠ l

/-- A local time that the clock never shows is moved forward into the clock hour that begins at `h`,
behind its beginning. -/
structure MovesInto (z : Zone) (l : LocalTime) (h : Instant) : Prop where
  skips : z.Skips l
  hourStart : (z.instantOf l).hourStart = h
  lt : h < z.instantOf l

/-- A time that is moved into an hour does not mean a whole hour. -/
theorem MovesInto.not_isHour (hl : z.MovesInto l h) : ¬ (z.instantOf l).IsHour := by
  intro hhour
  have hlt := hl.lt
  rw [← hl.hourStart, Instant.hourStart_of_isHour hhour] at hlt
  exact Instant.lt_irrefl _ hlt

theorem first?_of_skips (h : z.Skips l) : z.first? l = none := (first?_eq_none_iff z.sorted).2 h

/-- A local time that the clock shows means the first instant at which it does. -/
theorem isLeast_instantOf (h : ∃ t, z.localTime t = l) :
    IsLeast {t | z.localTime t = l} (z.instantOf l) := by
  obtain ⟨u, hu⟩ := h
  unfold instantOf
  cases hfirst : z.first? l with
  | none => exact absurd hu ((first?_eq_none_iff z.sorted).1 hfirst u)
  | some t =>
    obtain ⟨hshow, hleast⟩ := (first?_eq_some_iff z.sorted).1 hfirst
    exact ⟨hshow, fun v hv => hleast v hv⟩

/-! ## Seconds on the wall -/

/-- The day in which a second of the wall lies, when days are counted from 03:00, from which on
times are reckoned by the offset of their day. -/
def wallDay (s : Int) : Int := (s - 10800) / 86400

theorem wallDay_bounds (s : Int) :
    wallDay s * 86400 + 10800 ≤ s ∧ s < wallDay s * 86400 + 97200 := by
  unfold wallDay
  omega

theorem offsetOn_day (l : LocalTime) :
    offsetOn l.day l.timeOfDay = seasonOffset (wallDay l.seconds) := by
  have hparts : l.seconds = l.day * 86400 + l.timeOfDay.seconds := by
    simp only [LocalTime.day, LocalTime.timeOfDay, secondsPerDay]
    omega
  have htime := l.timeOfDay.seconds_lt
  simp only [secondsPerDay] at htime
  unfold offsetOn
  split
  · rw [show wallDay l.seconds = l.day - 1 by unfold wallDay; omega]
  · rw [show wallDay l.seconds = l.day by unfold wallDay; omega]

/-- A local time lies ahead of the instant that it means by the offset of its day. -/
theorem instantOf_seconds (hz : z.table = .centralEurope) (l : LocalTime) :
    (z.instantOf l).seconds = l.seconds - seasonOffset (wallDay l.seconds) := by
  have hsec := (instantOf_ofDay hz l.day l.timeOfDay).1
  rw [LocalTime.ofDay_day_timeOfDay, offsetOn_day] at hsec
  rw [hsec]
  simp only [LocalTime.day, LocalTime.timeOfDay, secondsPerDay]
  omega

/-- The clock leaves out the hour from 02:00 of the days with which summer time begins. -/
theorem skips_iff (hz : z.table = .centralEurope) : z.Skips l ↔
    seasonOffset (wallDay l.seconds) = 3600 ∧ seasonOffset (wallDay l.seconds + 1) = 7200 ∧
      wallDay l.seconds * 86400 + 93600 ≤ l.seconds := by
  constructor
  · intro hskip
    have hnone := first?_of_skips hskip
    rw [← LocalTime.ofDay_day_timeOfDay l] at hnone
    obtain ⟨hfrom, hto, hprev, hnext⟩ := gap_of_first? hz hnone
    have hday : wallDay l.seconds = l.day - 1 := by
      simp only [LocalTime.timeOfDay, LocalTime.day, secondsPerDay, wallDay] at hfrom hto ⊢
      omega
    rw [hday, Int.sub_add_cancel]
    refine ⟨hprev, hnext, ?_⟩
    simp only [LocalTime.timeOfDay, LocalTime.day, secondsPerDay] at hfrom ⊢
    omega
  · rintro ⟨hprev, hnext, hfrom⟩ t rfl
    -- Until the change the clock is before the hour, and from the change on it is behind it.
    have hshown := localTime_seconds hz t
    have hto := (wallDay_bounds (z.localTime t).seconds).2
    have hday := seasonDay_bounds t.seconds
    have hown := seasonOffset_cases (seasonDay t.seconds)
    rw [hshown] at hfrom hto hprev hnext
    generalize wallDay (t.seconds + seasonOffset (seasonDay t.seconds)) = n at *
    by_cases hq : seasonDay t.seconds = n
    · rw [hq] at hday hfrom hto
      omega
    · obtain hq : seasonDay t.seconds = n + 1 := by omega
      rw [hq] at hday hfrom hto
      omega

/-- Only a time that is moved forward may leave a leap second. -/
theorem instantOf_nanos (hshown : ¬ z.Skips l) : (z.instantOf l).nanos = l.nanos :=
  (localTime_eq_iff.1 (isLeast_instantOf (not_forall_not.1 hshown)).1).2

/-! ## The order -/

/-- Times are moved into the hours at whose beginning the clock leaves out an hour. -/
theorem MovesInto.seconds_eq (hl : z.MovesInto l h) (hz : z.table = .centralEurope) :
    h.seconds = wallDay l.seconds * 86400 + 90000 := by
  obtain ⟨hprev, hnext, hfrom⟩ := (skips_iff hz).1 hl.skips
  have hto := (wallDay_bounds l.seconds).2
  have hsec := instantOf_seconds hz l
  rw [← hl.hourStart]
  simp only [Instant.hourStart, Instant.ofSeconds, secondsPerHour]
  omega

/-- With an hour into which times are moved the clock is put forward. -/
theorem MovesInto.offset_lt (hl : z.MovesInto l h) (hz : z.table = .centralEurope) :
    z.table.offsetAt (h.seconds - 1) < z.table.offsetAt h.seconds := by
  obtain ⟨hprev, hnext, -⟩ := (skips_iff hz).1 hl.skips
  have hstart := hl.seconds_eq hz
  rw [hz, offsetAt_centralEurope, offsetAt_centralEurope,
    seasonDay_eq (wallDay l.seconds) (by omega) (by omega),
    seasonDay_eq (wallDay l.seconds + 1) (by omega) (by omega), hprev, hnext]
  decide

/-- A time that is moved into an hour is earlier on the wall than the beginning of the hour. -/
theorem MovesInto.lt_localTime (hl : z.MovesInto l h) (hz : z.table = .centralEurope) :
    l.asUtc < (z.localTime h).asUtc := by
  obtain ⟨-, hnext, -⟩ := (skips_iff hz).1 hl.skips
  have hto := (wallDay_bounds l.seconds).2
  have hstart := hl.seconds_eq hz
  have hlocal := localTime_seconds hz h
  rw [seasonDay_eq (wallDay l.seconds + 1) (by omega) (by omega), hnext] at hlocal
  exact .inl (by simp only [LocalTime.asUtc]; omega)

/-- When a local time has been reached at a clock hour, so have all earlier ones, except for those
that are moved into the hour; then the hour is that of the local time itself. -/
theorem instantOf_le_of_le (hz : z.table = .centralEurope) (hlm : l.asUtc ≤ m.asUtc)
    (hh : h.IsHour) (hm : z.instantOf m ≤ h) :
    z.instantOf l ≤ h ∨ z.MovesInto l h ∧ z.instantOf m = h := by
  refine (Decidable.em _).imp_right fun hnot => ?_
  have hlt := Instant.not_le.1 hnot
  obtain ⟨hnanos, hhour⟩ := hh
  have hgap : z.Skips l ∧ (z.instantOf l).seconds < h.seconds + 3600 ∧
      (z.instantOf m).seconds = h.seconds := by
    have hsl := instantOf_seconds hz l
    have hsm := instantOf_seconds hz m
    have hol := seasonOffset_cases (wallDay l.seconds)
    have hom := seasonOffset_cases (wallDay m.seconds)
    have hbl := wallDay_bounds l.seconds
    have hbm := wallDay_bounds m.seconds
    simp only [LocalTime.asUtc, Instant.le_def, Instant.lt_def, secondsPerHour] at hlm hm hlt hhour
    by_cases hday : wallDay m.seconds = wallDay l.seconds
    · -- Both are reckoned by one offset: they differ by nanoseconds alone.
      rw [hday] at hsm hom
      have hsec : m.seconds = l.seconds := by omega
      refine ⟨?_, by omega, by omega⟩
      by_contra hshown
      have hshown' : ¬ z.Skips m := by rwa [skips_iff hz, hsec, ← skips_iff hz]
      have hnl := instantOf_nanos hshown
      have hnm := instantOf_nanos hshown'
      omega
    · -- Summer time begins between them.
      obtain hnext : wallDay m.seconds = wallDay l.seconds + 1 := by omega
      rw [hnext] at hsm hom hbm
      exact ⟨(skips_iff hz).2 ⟨by omega, by omega, by omega⟩, by omega, by omega⟩
  obtain ⟨hskip, hwithin, hreached⟩ := hgap
  refine ⟨⟨hskip, ?_, hlt⟩, ?_⟩
  · simp only [Instant.hourStart, Instant.ofSeconds, Instant.ext_iff, Instant.lt_def,
      secondsPerHour] at hlt hhour ⊢
    omega
  · rw [Instant.le_def] at hm
    rw [Instant.ext_iff]
    omega

/-- At a clock hour all local times have been reached that the clock does not show later, except for
those that are moved into the hour. -/
theorem instantOf_le_of_le_localTime (hz : z.table = .centralEurope) (hh : h.IsHour)
    (hl : l.asUtc ≤ (z.localTime h).asUtc) : z.instantOf l ≤ h ∨ z.MovesInto l h :=
  (instantOf_le_of_le hz hl hh ((isLeast_instantOf ⟨h, rfl⟩).2 rfl)).imp_right And.left

end Zone

end HourlyPrices
