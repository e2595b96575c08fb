import HourlyPrices.Time.Date

/-!
# The date of a day

Days and dates are numbered alike: the number of the date of a day is that day
(`Date.dayNumber_ofDayNumber`), and this date exists (`Date.valid_ofDayNumber`). Both are seen in a
year that begins in March: such a year has 365 days, and one more before a leap year's March.
-/

namespace HourlyPrices.Date

variable {n : Int}

/-- The year, from March, of a day within an era of 400 years. -/
def yearOfEra (d : Int) : Int := (d - d / 1460 + d / 36524 - d / 146096) / 365

/-- Within an era, the year `y` from March and the day `r` of that year, counted from 0; the 366th
day is the leap day. -/
structure MarchYear (d y r : Int) : Prop where
  day : d = 365 * y + y / 4 - y / 100 + r
  year : 0 ≤ y ∧ y ≤ 399
  dayOfYear : 0 ≤ r ∧ r ≤ 365
  leap : r = 365 → y % 4 = 3 ∧ (y % 100 ≠ 99 ∨ y = 399)

/-- The year of the day that is `r` days into year `k` of the leap cycle `q` of the century `c`. -/
theorem yearOfEra_eq {d c q k r : Int} (hd : d = 36524 * c + 1461 * q + 365 * k + r)
    (hc : 0 ≤ c ∧ c ≤ 3) (hq : 0 ≤ q ∧ q ≤ 24) (hk : 0 ≤ k ∧ k ≤ 3)
    (hr : 0 ≤ r ∧ r ≤ 364 ∨ k = 3 ∧ r = 365 ∧ q ≤ 23) : yearOfEra d = 100 * c + 4 * q + k := by
  have hcentury : 0 ≤ 1461 * q + 365 * k + r ∧ 1461 * q + 365 * k + r ≤ 36523 := by omega
  have hera : d / 146096 = 0 := by omega
  have hcenturies : d / 36524 = c := by omega
  -- Within a century the cycles of 1461 days fall behind those of 1460, but by less than a year.
  have hcycles : d / 1460 = 25 * c + q ∨ d / 1460 = 25 * c + q + 1 := by omega
  simp only [yearOfEra, hera, hcenturies]
  rcases hcycles with h | h <;> rw [h] <;> omega

theorem exists_marchYear {d : Int} (h : 0 ≤ d) (hd : d < 146097) :
    ∃ r, MarchYear d (yearOfEra d) r := by
  by_cases hlast : d = 146096
  · -- The leap day of the 400th year, which the last year of no other century has.
    subst hlast
    exact ⟨365, by decide, by decide, by decide, by decide⟩
  · obtain ⟨c, q, k, r, hsum, hc, hq, hk, hr⟩ : ∃ c q k r : Int,
        d = 36524 * c + 1461 * q + 365 * k + r ∧ (0 ≤ c ∧ c ≤ 3) ∧ (0 ≤ q ∧ q ≤ 24) ∧
        (0 ≤ k ∧ k ≤ 3) ∧ (0 ≤ r ∧ r ≤ 364 ∨ k = 3 ∧ r = 365 ∧ q ≤ 23) := by
      let s := d % 36524 % 1461
      exact ⟨d / 36524, d % 36524 / 1461, min (s / 365) 3, s - 365 * min (s / 365) 3, by omega⟩
    rw [yearOfEra_eq hsum hc hq hk hr]
    exact ⟨r, by omega, by omega, by omega, by omega⟩

/-- The date of a day of a year that begins in March. -/
def ofMarch (year dayOfYear : Int) : Date :=
  let monthFromMarch := (5 * dayOfYear + 2) / 153
  let day := dayOfYear - (153 * monthFromMarch + 2) / 5 + 1
  let month := if monthFromMarch < 10 then monthFromMarch + 3 else monthFromMarch - 9
  ⟨if month ≤ 2 then year + 1 else year, month.toNat, day.toNat⟩

theorem exists_ofMarch (n : Int) :
    ∃ era y r, n + 719468 = era * 146097 + (365 * y + y / 4 - y / 100 + r) ∧
      MarchYear ((n + 719468) % 146097) y r ∧ ofDayNumber n = ofMarch (y + era * 400) r := by
  obtain ⟨r, h⟩ := exists_marchYear (d := (n + 719468) % 146097) (by omega) (by omega)
  have hday := h.day
  refine ⟨(n + 719468) / 146097, _, r, by omega, h, ?_⟩
  have hr : r = (n + 719468) % 146097 - (365 * yearOfEra ((n + 719468) % 146097) +
      yearOfEra ((n + 719468) % 146097) / 4 - yearOfEra ((n + 719468) % 146097) / 100) := by
    omega
  rw [hr]
  rfl

/-- From March to December. -/
theorem ofMarch_of_lt (year : Int) {r m : Int} (hm : (5 * r + 2) / 153 = m)
    (hlt : 0 ≤ m ∧ m < 10) :
    ofMarch year r = ⟨year, (m + 3).toNat, (r - (153 * m + 2) / 5 + 1).toNat⟩ := by
  simp only [ofMarch, hm]
  rw [if_pos hlt.2, if_neg (by omega)]

/-- January and February. -/
theorem ofMarch_of_ge (year : Int) {r m : Int} (hm : (5 * r + 2) / 153 = m)
    (hge : 10 ≤ m ∧ m ≤ 11) :
    ofMarch year r = ⟨year + 1, (m - 9).toNat, (r - (153 * m + 2) / 5 + 1).toNat⟩ := by
  simp only [ofMarch, hm]
  rw [if_neg (show ¬ m < 10 by omega), if_pos (by omega)]

theorem dayNumber_ofMarch (year : Int) {r : Int} (h : 0 ≤ r ∧ r ≤ 365) :
    dayNumber (ofMarch year r) = year / 400 * 146097 +
      (year % 400 * 365 + year % 400 / 4 - year % 400 / 100 + r) - 719468 := by
  obtain ⟨m, hm⟩ : ∃ m, (5 * r + 2) / 153 = m := ⟨_, rfl⟩
  have hday : 0 ≤ r - (153 * m + 2) / 5 := by omega
  by_cases hlt : m < 10
  · have hmonth : ((((m + 3).toNat + 9) % 12 : Nat) : Int) = m := by omega
    rw [ofMarch_of_lt year hm (by omega)]
    simp only [dayNumber, hmonth]
    rw [if_neg (by omega)]
    omega
  · have hmonth : ((((m - 9).toNat + 9) % 12 : Nat) : Int) = m := by omega
    rw [ofMarch_of_ge year hm (by omega)]
    simp only [dayNumber, hmonth]
    rw [if_pos (by omega), Int.add_sub_cancel]
    omega

/-- The number of the date of a day is that day. -/
theorem dayNumber_ofDayNumber (n : Int) : dayNumber (ofDayNumber n) = n := by
  obtain ⟨era, y, r, hn, h, hdate⟩ := exists_ofMarch n
  have hyear := h.year
  have hcycle : (y + era * 400) / 400 = era ∧ (y + era * 400) % 400 = y := by omega
  rw [hdate, dayNumber_ofMarch _ h.dayOfYear, hcycle.1, hcycle.2]
  omega

theorem daysInMonth_le (year : Int) (month : Nat) : daysInMonth year month ≤ 31 := by
  simp only [daysInMonth]
  split
  · split <;> decide
  · split <;> decide

/-- A day of a year that begins in March is a day of its month; the 366th is the leap day. -/
theorem day_le_daysInMonth (year : Int) {r : Int} (h : 0 ≤ r ∧ r ≤ 365)
    (hleap : r = 365 → isLeap (year + 1)) :
    1 ≤ (ofMarch year r).month ∧ (ofMarch year r).month ≤ 12 ∧ 1 ≤ (ofMarch year r).day ∧
      (ofMarch year r).day ≤ daysInMonth (ofMarch year r).year (ofMarch year r).month := by
  obtain ⟨m, hm⟩ : ∃ m, (5 * r + 2) / 153 = m := ⟨_, rfl⟩
  by_cases hlt : m < 10
  · rw [ofMarch_of_lt year hm (by omega)]
    simp only [daysInMonth]
    refine ⟨by omega, by omega, by omega, ?_⟩
    rw [if_neg (by omega)]
    split <;> omega
  · rw [ofMarch_of_ge year hm (by omega)]
    simp only [daysInMonth]
    refine ⟨by omega, by omega, by omega, ?_⟩
    split
    · split
      · omega
      · have := mt hleap ‹_›
        omega
    · rw [if_neg (by omega)]
      omega

/-- The date of a day exists. -/
theorem valid_ofDayNumber (hmin : minYear ≤ (ofDayNumber n).year)
    (hmax : (ofDayNumber n).year ≤ maxYear) : (ofDayNumber n).Valid := by
  obtain ⟨era, y, r, -, h, hdate⟩ := exists_ofMarch n
  have hleap : r = 365 → isLeap (y + era * 400 + 1) := by
    intro hr
    have hyear := h.leap hr
    simp only [isLeap, Bool.and_eq_true, Bool.or_eq_true, beq_iff_eq, bne_iff_ne]
    omega
  have hday := day_le_daysInMonth (y + era * 400) h.dayOfYear hleap
  exact ⟨hmin, hmax, hdate ▸ hday⟩

end HourlyPrices.Date
