import HourlyPrices.Tariff.Hourly

/-!
# Clock hours

Shifting an instant by whole hours, the clock hours that `hoursBetween` lists (`mem_hoursBetween`,
in order by `hoursBetween_pairwise`), and the first hour of validity of a tariff
(`firstValidHour_le_iff`).
-/

namespace HourlyPrices

theorem Span.seconds_ofSeconds (n : Int) : (Span.ofSeconds n).seconds = n :=
  Int.mul_tdiv_cancel _ (by decide)

namespace Instant

variable {t u : Instant}

/-- Nanoseconds since the start of 1970, without regard to leap seconds. -/
def position (t : Instant) : Int := t.seconds * nanosPerSecond + t.nanos

theorem IsHour.nanos_lt (h : t.IsHour) : t.nanos < nanosPerSecond := by
  rw [h.1]; decide

/-- Outside of leap seconds, a shift by whole seconds moves the seconds alone. -/
theorem shift_ofSeconds (h : t.nanos < nanosPerSecond) (n : Int) :
    t.shift (Span.ofSeconds n) = ⟨t.seconds + n, t.nanos, t.nanos_lt⟩ := by
  have hs := Span.seconds_ofSeconds n
  have hf : (Span.ofSeconds n).subNanos = 0 := by
    simp only [Span.subNanos, Span.ofSeconds]
    exact Int.mul_tmod_left ..
  simp only [shift, hs, hf, if_pos h, normal, ext_iff, nanosPerSecond] at h ⊢
  omega

theorem shift_ofHours (h : t.nanos < nanosPerSecond) (n : Int) :
    t.shift (Span.ofHours n) = ⟨t.seconds + n * secondsPerHour, t.nanos, t.nanos_lt⟩ :=
  shift_ofSeconds h _

theorem isHour_shift_ofHours (h : t.IsHour) (n : Int) : (t.shift (Span.ofHours n)).IsHour := by
  rw [shift_ofHours h.nanos_lt]
  simp only [IsHour, secondsPerHour] at h ⊢
  omega

/-- A shift ahead goes ahead by its whole seconds, but for a leap second. -/
theorem le_seconds_shift {d : Span} (hd : 0 ≤ d.nanos) :
    t.seconds + d.seconds - 1 ≤ (t.shift d).seconds := by
  have hs : 0 ≤ d.seconds := Int.tdiv_nonneg hd (by decide)
  have hf : 0 ≤ d.subNanos := Int.tmod_nonneg _ hd
  simp only [shift, normal, nanosPerSecond]
  split
  · simp only; omega
  · split
    · simp only; omega
    · split
      · omega
      · split <;> simp only <;> omega

/-- A shift ahead by a second or more counts from the second before, when it starts within a leap
second. -/
theorem shift_of_second_le {d : Span} (hd : nanosPerSecond ≤ d.nanos) :
    t.shift d = normal t.seconds (t.nanos % nanosPerSecond + d.nanos) := by
  have hnonneg : 0 ≤ d.nanos := Int.le_trans (by decide) hd
  have hlt := t.nanos_lt
  have hs : d.seconds = d.nanos / nanosPerSecond := Int.tdiv_eq_ediv_of_nonneg hnonneg
  have hf : d.subNanos = d.nanos % nanosPerSecond := Int.tmod_eq_emod_of_nonneg hnonneg
  simp only [shift, hs, hf, nanosPerSecond] at hd hlt ⊢
  by_cases hleap : t.nanos < 1000000000
  · rw [if_pos hleap]
    simp only [normal, ext_iff, nanosPerSecond]
    omega
  · rw [if_neg hleap, if_pos (.inl (by omega))]
    simp only [normal, ext_iff, nanosPerSecond]
    omega

/-- A shift ahead by a second or more ends outside of leap seconds, and behind where it starts. -/
theorem position_shift {d : Span} (hd : nanosPerSecond ≤ d.nanos) :
    (t.shift d).position = t.seconds * nanosPerSecond + t.nanos % nanosPerSecond + d.nanos ∧
      (t.shift d).nanos < nanosPerSecond ∧ t < t.shift d := by
  have hlt := t.nanos_lt
  rw [shift_of_second_le hd]
  simp only [position, normal, lt_def, nanosPerSecond] at hd hlt ⊢
  omega

/-- An hour is not before the hour of `t` exactly when it ends after `t`. -/
theorem hourStart_le_iff (h : u.IsHour) : t.hourStart ≤ u ↔ t < u.shift (Span.ofHours 1) := by
  rw [shift_ofHours h.nanos_lt]
  simp only [IsHour, hourStart, ofSeconds, le_def, lt_def, secondsPerHour] at h ⊢
  omega

/-- An instant lies in an hour from its start up to that of the next. -/
theorem hourStart_eq_iff (h : u.IsHour) :
    t.hourStart = u ↔ u ≤ t ∧ t < u.shift (Span.ofHours 1) := by
  rw [shift_ofHours h.nanos_lt]
  simp only [IsHour, hourStart, ofSeconds, ext_iff, le_def, lt_def, secondsPerHour] at h ⊢
  omega

theorem hourStart_mono (h : t ≤ u) : t.hourStart ≤ u.hourStart := by
  simp only [hourStart, ofSeconds, le_def, secondsPerHour] at h ⊢
  omega

/-- The span between clock hours. -/
theorem since_of_isHour (ht : t.IsHour) (hu : u.IsHour) :
    t.since u = Span.ofSeconds (t.seconds - u.seconds) := by
  simp [since, Span.ofSeconds, ht.1, hu.1]

theorem lt_earliest_iff {a b c : Instant} : c < earliest a b ↔ c < a ∧ c < b := by
  simp only [earliest, le_def, lt_def]
  split <;> omega

theorem latest_lt_iff {a b c : Instant} : latest a b < c ↔ a < c ∧ b < c := by
  simp only [latest, le_def, lt_def]
  split <;> omega

theorem latest_le_iff {a b c : Instant} : latest a b ≤ c ↔ a ≤ c ∧ b ≤ c := by
  simp only [latest, le_def]
  split <;> omega

theorem le_latest_left (a b : Instant) : a ≤ latest a b := (latest_le_iff.1 (le_refl _)).1

theorem le_latest_right (a b : Instant) : b ≤ latest a b := (latest_le_iff.1 (le_refl _)).2

theorem latest_of_le {a b : Instant} (h : a ≤ b) : latest a b = b := by
  unfold latest
  split
  · rename_i h'
    rw [le_def] at h h'
    rw [ext_iff]
    omega
  · rfl

/-! ## The last hour -/

/-- The last clock hour that is representable. The hour after it is not. -/
def lastHour : Instant := ofSeconds 8210266873200

theorem inRange_iff : t.inRange ↔ minSeconds ≤ t.seconds ∧ t.seconds ≤ maxSeconds :=
  decide_eq_true_iff

theorem nextHour?_isSome_iff (h : t.IsHour) :
    t.nextHour?.isSome ↔ (t.shift (Span.ofHours 1)).inRange := by
  rw [nextHour?, hourStart_of_isHour h, add?]
  split <;> simp [*]

/-- From the first instant on, the hour after a clock hour is representable unless that is the
last one. -/
theorem nextHour?_isSome_iff_lt (h : t.IsHour) (ht : minSeconds ≤ t.seconds) :
    t.nextHour?.isSome ↔ t < lastHour := by
  rw [nextHour?_isSome_iff h, shift_ofHours h.nanos_lt, inRange_iff]
  simp only [IsHour, lastHour, ofSeconds, lt_def, minSeconds, maxSeconds, secondsPerHour] at h ht ⊢
  omega

theorem seconds_le_of_le_lastHour (h : t ≤ lastHour) : t.seconds ≤ maxSeconds := by
  simp only [le_def, lastHour, ofSeconds] at h
  rw [maxSeconds]
  omega

theorem minSeconds_le_hourStart (h : t.inRange) : minSeconds ≤ t.hourStart.seconds := by
  rw [inRange_iff] at h
  simp only [hourStart, ofSeconds, minSeconds, secondsPerHour] at h ⊢
  omega

theorem hourStart_le_lastHour (h : t.inRange) : t.hourStart ≤ lastHour := by
  rw [inRange_iff] at h
  simp only [hourStart, lastHour, ofSeconds, le_def, maxSeconds, secondsPerHour] at h ⊢
  omega

end Instant

/-! ## The hours of a window -/

/-- From a clock hour on, `hoursBetween` lists the clock hours that start before `stop`. -/
theorem mem_hoursBetween {start stop h : Instant} (hs : start.IsHour) :
    h ∈ hoursBetween start stop ↔ h.IsHour ∧ start ≤ h ∧ h < stop := by
  obtain ⟨hn, hm⟩ := hs
  simp only [hoursBetween, hn, List.mem_map, List.mem_range, Instant.IsHour, Instant.le_def,
    Instant.lt_def, Instant.ext_iff, secondsPerHour] at hm ⊢
  constructor
  · rintro ⟨i, hi, hsec, hnan⟩
    split at hi <;> omega
  · rintro ⟨⟨hn', hm'⟩, hle, hlt⟩
    refine ⟨((h.seconds - start.seconds) / 3600).toNat, ?_, ?_, hn'.symm⟩
    · split <;> omega
    · omega

theorem hoursBetween_pairwise (start stop : Instant) :
    (hoursBetween start stop).Pairwise (· < ·) := by
  rw [hoursBetween, List.pairwise_map]
  refine List.pairwise_lt_range.imp fun {i j} hij => ?_
  simp only [Instant.lt_def, secondsPerHour]
  omega

theorem isHour_firstValidHour (valid start : Instant) : (firstValidHour valid start).IsHour := by
  simp only [firstValidHour]
  split
  · exact Instant.isHour_shift_ofHours (Instant.isHour_hourStart _) 1
  · exact Instant.isHour_hourStart _

/-- The hours from the first valid one on are those that start within the validity, from the hour
of `start` on. -/
theorem firstValidHour_le_iff {valid start h : Instant} (hh : h.IsHour) :
    firstValidHour valid start ≤ h ↔ valid ≤ h ∧ start.hourStart ≤ h := by
  rw [Instant.hourStart_le_iff hh, Instant.shift_ofHours hh.nanos_lt]
  by_cases hlater : start ≤ valid
  · have hlatest : Instant.latest valid start = valid := if_pos hlater
    simp only [firstValidHour, hlatest,
      Instant.shift_ofHours (Instant.isHour_hourStart valid).nanos_lt]
    simp only [Instant.IsHour, Instant.hourStart, Instant.ofSeconds, Instant.le_def, Instant.lt_def,
      secondsPerHour] at hh hlater ⊢
    split <;> simp only <;> omega
  · have hlatest : Instant.latest valid start = start := if_neg hlater
    simp only [firstValidHour, hlatest,
      Instant.shift_ofHours (Instant.isHour_hourStart start).nanos_lt]
    simp only [Instant.IsHour, Instant.hourStart, Instant.ofSeconds, Instant.le_def, Instant.lt_def,
      secondsPerHour] at hh hlater ⊢
    split <;> simp only <;> omega

end HourlyPrices
