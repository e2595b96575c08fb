import HourlyPrices.Proofs.Time.Hours
import HourlyPrices.Proofs.Zone.Transitions

/-!
# Days in central Europe

Clocks in central Europe change at 01:00 UTC and nowhere else, and they are one or two hours ahead
(`OffsetTable.offsetAt_centralEurope`). From this alone follows how its days lie: each begins at a
whole hour of UTC, the local day of an instant is found by comparison with these beginnings
(`Zone.dayAt_lt_iff`), and a time of day means an instant of its day, also when it lies in a gap or
a fold (`Zone.instantOf_ofDay`). A day has 23, 24 or 25 hours.
-/

namespace HourlyPrices

namespace OffsetTable

/-- The day of UTC in which a second lies, when days are counted from 01:00 UTC, at which the clocks
of central Europe change. -/
def seasonDay (s : Int) : Int := (s - 3600) / 86400

/-- The offset in central Europe from 01:00 UTC of the day with this number to that of the next. -/
def seasonOffset (n : Int) : Int := centralEurope.offsetAt (n * 86400 + 3600)

/-- The second of UTC at which the day with this number begins in central Europe. -/
def dayStart (n : Int) : Int := n * 86400 - seasonOffset (n - 1)

theorem centralEurope_changes : ∀ c ∈ centralEurope.changes,
    c.since % 86400 = 3600 ∧ (c.offset = 3600 ∨ c.offset = 7200) := by
  decide +kernel

theorem seasonOffset_cases (n : Int) : seasonOffset n = 3600 ∨ seasonOffset n = 7200 := by
  rcases offsetFrom_mem centralEurope.initial centralEurope.changes (n * 86400 + 3600) with
    h | ⟨c, hc, h⟩
  · exact .inl h
  · rcases (centralEurope_changes c hc).2 with ho | ho
    · exact .inl (h.trans ho)
    · exact .inr (h.trans ho)

/-- The offset at a second is that of its day, counted from 01:00 UTC. -/
theorem offsetAt_centralEurope (s : Int) :
    centralEurope.offsetAt s = seasonOffset (seasonDay s) := by
  refine offsetFrom_congr fun c hc => ?_
  have := (centralEurope_changes c hc).1
  unfold seasonDay
  omega

theorem seasonDay_eq {s : Int} (n : Int) (hfrom : n * 86400 + 3600 ≤ s)
    (hto : s < n * 86400 + 90000) : seasonDay s = n := by
  unfold seasonDay
  omega

theorem seasonDay_bounds (s : Int) :
    seasonDay s * 86400 + 3600 ≤ s ∧ s < seasonDay s * 86400 + 90000 := by
  unfold seasonDay
  omega

theorem dayStart_sub_dayStart (n : Int) :
    dayStart (n + 1) - dayStart n = 86400 + seasonOffset (n - 1) - seasonOffset n := by
  rw [dayStart, dayStart, Int.add_sub_cancel]
  omega

end OffsetTable

namespace Zone

open OffsetTable

variable {z : Zone} {t : Instant} {n : Int} {time : TimeOfDay}

theorem localTime_seconds (hz : z.table = .centralEurope) (t : Instant) :
    (z.localTime t).seconds = t.seconds + seasonOffset (seasonDay t.seconds) := by
  rw [← offsetAt_centralEurope, ← hz]
  rfl

/-- An instant lies on an earlier day exactly when it lies before the beginning of the day. -/
theorem dayAt_lt_iff (hz : z.table = .centralEurope) : z.dayAt t < n ↔ t.seconds < dayStart n := by
  rw [dayAt, LocalTime.day, localTime_seconds hz, dayStart, secondsPerDay]
  have hday := seasonDay_bounds t.seconds
  have hprev := seasonOffset_cases (n - 1)
  have hown := seasonOffset_cases (seasonDay t.seconds)
  -- The beginning of a day is reckoned by the offset of the day before it, which is in force at
  -- the instants around it.
  by_cases hn : seasonDay t.seconds = n - 1
  · rw [hn] at hday ⊢
    omega
  · omega

theorem le_dayAt_iff (hz : z.table = .centralEurope) :
    n ≤ z.dayAt t ↔ dayStart n ≤ t.seconds := by
  rw [← Int.not_lt, dayAt_lt_iff hz, Int.not_lt]

/-! ## Times of day -/

/-- The clock shows a time of day at the seconds that lie ahead of it by the offset in force. -/
theorem localTime_eq_ofDay_iff (hz : z.table = .centralEurope) :
    z.localTime t = .ofDay n time ↔
      t.seconds + seasonOffset (seasonDay t.seconds) = n * 86400 + time.seconds ∧
        t.nanos = time.nanos := by
  rw [localTime_eq_iff, hz, offsetAt_centralEurope]
  rfl

/-- The offset by which a time of day is reckoned: until 03:00 that of the day before. -/
def offsetOn (n : Int) (time : TimeOfDay) : Int :=
  if time.seconds < 10800 then seasonOffset (n - 1) else seasonOffset n

/-- A time of day that the clock shows at all it shows first by the offset of its day. -/
theorem seconds_of_first? (hz : z.table = .centralEurope)
    (h : z.first? (.ofDay n time) = some t) :
    t.seconds = n * 86400 + time.seconds - offsetOn n time ∧ t.nanos = time.nanos := by
  obtain ⟨hshow, hfirst⟩ := (first?_eq_some_iff z.sorted).1 h
  obtain ⟨hsec, hnan⟩ := (localTime_eq_ofDay_iff hz).1 hshow
  refine ⟨?_, hnan⟩
  have htime := time.seconds_lt
  have hday := seasonDay_bounds t.seconds
  have hprev := seasonOffset_cases (n - 1)
  have hnext := seasonOffset_cases n
  have hown := seasonOffset_cases (seasonDay t.seconds)
  unfold offsetOn
  simp only [secondsPerDay] at htime
  by_cases hq : seasonDay t.seconds = n - 1
  · rw [hq] at hsec hday
    split <;> omega
  · obtain hq : seasonDay t.seconds = n := by omega
    rw [hq] at hsec hday
    split
    · -- The day before has the same offset, or else the time is shown in its summer time before.
      have hearlier : seasonOffset (n - 1) = 7200 → 7200 ≤ time.seconds →
          t ≤ ⟨n * 86400 + time.seconds - 7200, time.nanos, time.nanos_lt⟩ := by
        intro hoff hfrom
        refine hfirst _ ((localTime_eq_ofDay_iff hz).2 ⟨?_, rfl⟩)
        rw [seasonDay_eq (n - 1) (by simp only; omega) (by simp only; omega), hoff]
        simp only
        omega
      simp only [Instant.le_def] at hearlier
      omega
    · omega

/-- The clock leaves out times of day only between 02:00 and 03:00, when summer time begins. -/
theorem gap_of_first? (hz : z.table = .centralEurope) (h : z.first? (.ofDay n time) = none) :
    7200 ≤ time.seconds ∧ time.seconds < 10800 ∧ seasonOffset (n - 1) = 3600 ∧
      seasonOffset n = 7200 := by
  have hnever := (first?_eq_none_iff z.sorted).1 h
    ⟨n * 86400 + time.seconds - offsetOn n time, time.nanos, time.nanos_lt⟩
  rw [ne_eq, localTime_eq_ofDay_iff hz] at hnever
  simp only [and_true] at hnever
  have htime := time.seconds_lt
  have hprev := seasonOffset_cases (n - 1)
  have hnext := seasonOffset_cases n
  unfold offsetOn at hnever
  simp only [secondsPerDay] at htime
  by_cases hlate : time.seconds < 10800
  · rw [if_pos hlate] at hnever
    by_cases hwinter : seasonOffset (n - 1) = 3600 ∧ 7200 ≤ time.seconds
    · rw [seasonDay_eq n (by omega) (by omega)] at hnever
      omega
    · rw [seasonDay_eq (n - 1) (by omega) (by omega)] at hnever
      omega
  · rw [if_neg hlate, seasonDay_eq n (by omega) (by omega)] at hnever
    omega

/-- An hour after a time of day on the same wall, where it is not past the last hour of the day. -/
theorem shift_ofDay (n : Int) (h : time.seconds < 82800) : ∃ later : TimeOfDay,
    (LocalTime.ofDay n time).shift (Span.ofHours 1) = .ofDay n later ∧
      later.seconds = time.seconds + 3600 ∧ later.nanos = time.nanos % nanosPerSecond := by
  have hmod : time.nanos % nanosPerSecond < clockNanos :=
    Nat.lt_of_lt_of_le (Nat.mod_lt _ (by decide)) (by decide)
  have hhour : (Span.ofHours 1).nanos = 3600000000000 := rfl
  refine ⟨⟨time.seconds + 3600, time.nanos % nanosPerSecond,
    Nat.add_lt_of_lt_sub h, hmod⟩, ?_, rfl, rfl⟩
  rw [LocalTime.shift, Instant.shift_of_second_le (by decide), hhour, LocalTime.ext_iff]
  constructor
  · change n * 86400 + (time.seconds : Int) +
        (time.nanos % 1000000000 + 3600000000000) / 1000000000 =
      n * 86400 + (time.seconds + 3600 : Nat)
    omega
  · change ((time.nanos % 1000000000 + 3600000000000) % 1000000000 : Int).toNat =
      time.nanos % 1000000000
    omega

/-- A time of day means an instant that lies behind it by the offset of its day; one that the clock
leaves out means the instant at which an hour more is shown. -/
theorem instantOf_ofDay (hz : z.table = .centralEurope) (n : Int) (time : TimeOfDay) :
    (z.instantOf (.ofDay n time)).seconds = n * 86400 + time.seconds - offsetOn n time ∧
      (z.instantOf (.ofDay n time)).nanos ≤ time.nanos ∧
      (10800 ≤ time.seconds → (z.instantOf (.ofDay n time)).nanos = time.nanos) := by
  unfold instantOf
  cases h : z.first? (.ofDay n time) with
  | some t =>
    obtain ⟨hsec, hnan⟩ := seconds_of_first? hz h
    exact ⟨hsec, Nat.le_of_eq hnan, fun _ => hnan⟩
  | none =>
    obtain ⟨hfrom, hto, hprev, hnext⟩ := gap_of_first? hz h
    obtain ⟨later, hlater, hsec, hnan⟩ := shift_ofDay n (show time.seconds < 82800 by omega)
    simp only [hlater]
    cases h' : z.first? (.ofDay n later) with
    | none =>
      have := (gap_of_first? hz h').2.1
      omega
    | some t =>
      obtain ⟨hsec', hnan'⟩ := seconds_of_first? hz h'
      have hmod := Nat.mod_le time.nanos nanosPerSecond
      simp only [offsetOn] at hsec' ⊢
      rw [if_neg (by omega)] at hsec'
      rw [if_pos hto]
      omega

/-! ## Midnights -/

/-- A day begins when its first hour is shown. -/
theorem midnight_eq (hz : z.table = .centralEurope) (n : Int) :
    z.midnight n = Instant.ofSeconds (dayStart n) := by
  obtain ⟨hsec, hnan, -⟩ := instantOf_ofDay hz n .midnight
  rw [Instant.ext_iff, midnight, Instant.ofSeconds]
  refine ⟨?_, Nat.le_zero.1 hnan⟩
  rw [hsec, dayStart, offsetOn, if_pos (by decide)]
  simp only [TimeOfDay.midnight]
  omega

/-- Midnight is shown once a day. -/
theorem localTime_eq_midnight_iff (hz : z.table = .centralEurope) :
    z.localTime t = .ofDay n .midnight ↔ t = z.midnight n := by
  have hday := seasonDay_bounds t.seconds
  have hprev := seasonOffset_cases (n - 1)
  have hown := seasonOffset_cases (seasonDay t.seconds)
  rw [localTime_eq_ofDay_iff hz, midnight_eq hz, Instant.ext_iff]
  simp only [Instant.ofSeconds, TimeOfDay.midnight, dayStart]
  by_cases hn : seasonDay t.seconds = n - 1
  · rw [hn]
    omega
  · omega

theorem isHour_midnight (hz : z.table = .centralEurope) (n : Int) : (z.midnight n).IsHour := by
  rw [midnight_eq hz]
  refine ⟨rfl, ?_⟩
  have := seasonOffset_cases (n - 1)
  simp only [Instant.ofSeconds, dayStart, secondsPerHour]
  omega

theorem lt_midnight_iff (hz : z.table = .centralEurope) : t < z.midnight n ↔ z.dayAt t < n := by
  rw [dayAt_lt_iff hz, midnight_eq hz, Instant.lt_def]
  simp only [Instant.ofSeconds]
  omega

theorem midnight_le_iff (hz : z.table = .centralEurope) : z.midnight n ≤ t ↔ n ≤ z.dayAt t := by
  rw [← Instant.not_lt, lt_midnight_iff hz, Int.not_lt]

/-- A time of day means an instant of its day. -/
theorem dayAt_instantOf_ofDay (hz : z.table = .centralEurope) (n : Int) (time : TimeOfDay) :
    z.dayAt (z.instantOf (.ofDay n time)) = n := by
  have hlt : z.dayAt (z.instantOf (.ofDay n time)) < n + 1 := by
    rw [dayAt_lt_iff hz, (instantOf_ofDay hz n time).1, dayStart, Int.add_sub_cancel]
    have htime := time.seconds_lt
    have hnext := seasonOffset_cases n
    have hprev := seasonOffset_cases (n - 1)
    simp only [secondsPerDay, offsetOn] at htime ⊢
    split <;> omega
  have hle : n ≤ z.dayAt (z.instantOf (.ofDay n time)) := by
    rw [le_dayAt_iff hz, (instantOf_ofDay hz n time).1, dayStart]
    have hprev := seasonOffset_cases (n - 1)
    have hnext := seasonOffset_cases n
    simp only [offsetOn]
    split <;> omega
  omega

/-- A local time means an instant of its day. -/
theorem dayAt_instantOf (hz : z.table = .centralEurope) (l : LocalTime) :
    z.dayAt (z.instantOf l) = l.day := by
  rw [← LocalTime.ofDay_day_timeOfDay l, dayAt_instantOf_ofDay hz, LocalTime.day_ofDay]

theorem midnight_le_instantOf (hz : z.table = .centralEurope) {l : LocalTime}
    (h : (LocalTime.ofDay n .midnight).asUtc ≤ l.asUtc) : z.midnight n ≤ z.instantOf l := by
  rw [midnight_le_iff hz, dayAt_instantOf hz, LocalTime.day, secondsPerDay]
  simp only [LocalTime.asUtc, LocalTime.ofDay, TimeOfDay.midnight, Instant.le_def,
    secondsPerDay] at h
  omega

theorem instantOf_le_midnight (hz : z.table = .centralEurope) {l : LocalTime}
    (h : l.asUtc ≤ (LocalTime.ofDay n .midnight).asUtc) : z.instantOf l ≤ z.midnight n := by
  by_cases hl : l = .ofDay n .midnight
  · rw [hl]
    exact Instant.le_refl _
  · refine Instant.le_of_lt ((lt_midnight_iff hz).2 ?_)
    rw [dayAt_instantOf hz, LocalTime.day, secondsPerDay]
    simp only [LocalTime.ext_iff, LocalTime.asUtc, LocalTime.ofDay, TimeOfDay.midnight,
      Instant.le_def, secondsPerDay] at h hl
    omega

/-- A day has begun when its first hour has. -/
theorem dayAt_hourStart (hz : z.table = .centralEurope) (t : Instant) :
    z.dayAt t.hourStart = z.dayAt t := by
  refine Int.le_antisymm (z.dayAt_le_dayAt (Instant.hourStart_le t)) ?_
  have hmidnight : z.midnight (z.dayAt t) ≤ t := (midnight_le_iff hz).2 (Int.le_refl _)
  have hhour := Instant.hourStart_mono hmidnight
  rw [Instant.hourStart_of_isHour (isHour_midnight hz _)] at hhour
  exact (midnight_le_iff hz).1 hhour

/-! ## The years of the tables -/

/-- The start of 1995, with which the offset tables begin. -/
def startOf1995 : Instant := .ofSeconds 788918400

/-- The start of 2037, up to which the rules of the zones are taken as settled. -/
def startOf2037 : Instant := .ofSeconds 2114380800

/-- An instant lies in the years from 1995 to 2036. -/
structure InTables (t : Instant) : Prop where
  le : startOf1995 ≤ t
  lt : t < startOf2037

theorem InTables.seconds (h : InTables t) : 788918400 ≤ t.seconds ∧ t.seconds < 2114380800 := by
  obtain ⟨hle, hlt⟩ := h
  simp only [startOf1995, startOf2037, Instant.ofSeconds, Instant.le_def, Instant.lt_def] at hle hlt
  omega

theorem InTables.inRange (h : InTables t) : t.inRange := by
  have := h.seconds
  rw [Instant.inRange_iff, Instant.minSeconds, Instant.maxSeconds]
  omega

theorem InTables.dayAt_le_lastDay (hz : z.table = .centralEurope) (h : InTables t) :
    z.dayAt t + 2 ≤ lastDay := by
  have hseconds := h.seconds
  have hoffset := seasonOffset_cases (seasonDay t.seconds)
  have hend : lastDay = 95026236 := by decide
  rw [dayAt, LocalTime.day, localTime_seconds hz, hend, secondsPerDay]
  omega

end Zone

end HourlyPrices
