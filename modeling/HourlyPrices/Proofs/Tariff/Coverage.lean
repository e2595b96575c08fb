import HourlyPrices.Proofs.Cache.Coverage
import HourlyPrices.Proofs.Tariff.Ended

/-!
# How far tariffs reach

A record with all its values publishes a price for each hour of its days, except for the last hour
of a day of 25 hours, for which it has no value (`TariffRecord.Spans.publishes`). So a list of
records with such a one covers the days that it spans when their 25th hours, if there are any, are
published by other records.
-/

namespace HourlyPrices

open OffsetTable

variable {z : Zone} {r : TariffRecord} {first last : Int} {start stop h t : Instant}

/-- An hour has a price when some record publishes one. -/
theorem isSome_get?_hourlyBetween_iff {records : List TariffRecord}
    (hw : h.IsHour ∧ start.hourStart ≤ h ∧ h < stop) :
    ((hourlyBetween z records start stop).get? h).isSome ↔
      ∃ r ∈ records, ∃ p, r.Publishes z h p := by
  induction records using List.reverseRecOn with
  | nil => simp [hourlyBetween, Series.ofList]
  | append_singleton records r ih =>
    have hlast : ((hourlyBetween z (records ++ [r]) start stop).get? h).isSome ↔
        (∃ p, r.Publishes z h p) ∨ ((hourlyBetween z records start stop).get? h).isSome := by
      simp only [Option.isSome_iff_exists, get?_hourlyBetween_concat_eq_some_iff hw]
      by_cases hr : ∃ q, r.Publishes z h q
      · exact iff_of_true (hr.imp fun _ => .inl) (.inl hr)
      · simp [not_exists.1 hr]
    rw [hlast, ih]
    constructor
    · rintro (hp | ⟨r', hr', hp⟩)
      · exact ⟨r, by simp, hp⟩
      · exact ⟨r', by simp [hr'], hp⟩
    · rintro ⟨r', hr', hp⟩
      rcases List.mem_append.1 hr' with hr' | hr'
      · exact .inr ⟨r', hr', hp⟩
      · exact .inl (List.mem_singleton.1 hr' ▸ hp)

/-! ## Days of 25 hours -/

theorem Instant.hoursSince_of_isHour (ht : t.IsHour) (hh : h.IsHour) :
    t.hoursSince h = ((t.seconds - h.seconds) / secondsPerHour).toNat := by
  rw [hoursSince, since_of_isHour ht hh, Span.ofSeconds]
  simp only [secondsPerHour, nanosPerSecond]
  omega

namespace Zone

/-- An hour that starts 24 hours or more after its day began: the last hour of a day of 25 hours. -/
def IsExtraHour (z : Zone) (h : Instant) : Prop := 24 ≤ h.hoursSince (z.midnight (z.dayAt h))

theorem isExtraHour_iff (hz : z.table = .centralEurope) (hh : h.IsHour) :
    z.IsExtraHour h ↔ dayStart (z.dayAt h) + 86400 ≤ h.seconds := by
  rw [IsExtraHour, Instant.hoursSince_of_isHour hh (isHour_midnight hz _), midnight_eq hz]
  simp only [Instant.ofSeconds, secondsPerHour]
  omega

/-- A day of more than 24 hours. -/
def IsLongDay (z : Zone) (n : Int) : Prop :=
  (z.midnight n).seconds + 24 * secondsPerHour < (z.midnight (n + 1)).seconds

instance (z : Zone) (n : Int) : Decidable (z.IsLongDay n) := inferInstanceAs (Decidable (_ < _))

theorem not_isExtraHour (hz : z.table = .centralEurope) (hh : h.IsHour)
    (hday : ¬ z.IsLongDay (z.dayAt h)) : ¬ z.IsExtraHour h := by
  rw [IsLongDay, midnight_eq hz, midnight_eq hz] at hday
  simp only [Instant.ofSeconds, secondsPerHour] at hday
  rw [isExtraHour_iff hz hh]
  have hlt := (dayAt_lt_iff (t := h) (n := z.dayAt h + 1) hz).1 (by omega)
  omega

/-- No time is moved into the last hour of a day of 25 hours: the day into which times are moved is
shorter. -/
theorem MovesInto.not_isExtraHour {l : LocalTime} (hl : z.MovesInto l h)
    (hz : z.table = .centralEurope) : ¬ z.IsExtraHour h := by
  obtain ⟨hprev, hnext, -⟩ := (skips_iff hz).1 hl.skips
  have hstart := hl.seconds_eq hz
  have hbegin : dayStart (wallDay l.seconds + 1) = (wallDay l.seconds + 1) * 86400 - 3600 := by
    rw [dayStart, Int.add_sub_cancel, hprev]
  have hlength := dayStart_sub_dayStart (wallDay l.seconds + 1)
  rw [Int.add_sub_cancel, hprev, hnext] at hlength
  have hfrom : wallDay l.seconds + 1 ≤ z.dayAt h := (le_dayAt_iff hz).2 (by omega)
  have hto : z.dayAt h < wallDay l.seconds + 1 + 1 := (dayAt_lt_iff hz).2 (by omega)
  obtain hday : z.dayAt h = wallDay l.seconds + 1 := by omega
  rw [isExtraHour_iff hz (hl.hourStart ▸ Instant.isHour_hourStart _), hday]
  omega

end Zone

/-! ## Records with all their values -/

namespace TariffRecord

/-- A record that has a value for each of the 24 hours of a day, and is valid from the beginning of
a day, or earlier, to the beginning of another, or longer. -/
structure Spans (r : TariffRecord) (first last : Int) : Prop where
  length : r.prices.length = priceColumns
  present : ∀ p ∈ r.prices, p.isSome
  started : r.validFrom.asUtc ≤ (LocalTime.ofDay first .midnight).asUtc
  not_ended : ∀ l, r.validTo = some l → (LocalTime.ofDay last .midnight).asUtc ≤ l.asUtc

theorem Spans.publishes (hr : r.Spans first last) (hz : z.table = .centralEurope)
    (hfirst : first ≤ z.dayAt h) (hlast : z.dayAt h < last) (hextra : ¬ z.IsExtraHour h) :
    ∃ p, r.Publishes z h p := by
  have hbegun : z.midnight (z.dayAt h) ≤ h := (Zone.midnight_le_iff hz).2 (Int.le_refl _)
  have hstarted : z.instantOf r.validFrom ≤ z.midnight (z.dayAt h) := by
    refine Instant.le_trans (Zone.instantOf_le_midnight hz hr.started) ?_
    rw [Zone.midnight_le_iff hz, Zone.midnight, Zone.dayAt_instantOf_ofDay hz]
    exact hfirst
  have hnumber : r.valueNumber z h < r.prices.length := by
    rw [valueNumber, Instant.latest, if_pos hstarted, hr.length]
    exact Nat.lt_of_not_le hextra
  obtain ⟨p, hp⟩ := Option.isSome_iff_exists.1 (hr.present _ (List.getElem_mem hnumber))
  refine ⟨p, Instant.le_trans hstarted hbegun, fun l hl => ?_, .inr ⟨?_, ?_⟩⟩
  · exact Instant.lt_of_lt_of_le ((Zone.lt_midnight_iff hz).2 hlast)
      (Zone.midnight_le_instantOf hz (hr.not_ended l hl))
  · rw [hr.length]
    decide
  · rw [List.getElem?_eq_getElem hnumber, hp]

/-- A record with the same value for each hour of the day, valid from the beginning of a day without
end. -/
def uniform (day : Int) (p : Decimal) : TariffRecord where
  validFrom := .ofDay day .midnight
  validTo := none
  code := ""
  prices := List.replicate priceColumns (some p)
  trimmed := by simp [priceColumns]

theorem spans_uniform {day : Int} {p : Decimal} (h : day ≤ first) :
    (uniform day p).Spans first last where
  length := List.length_replicate
  present q hq := by
    rw [List.eq_of_mem_replicate hq]
    rfl
  started := by
    simp only [uniform, LocalTime.asUtc, LocalTime.ofDay, TimeOfDay.midnight, Instant.le_def,
      secondsPerDay]
    omega
  not_ended l hl := by cases hl

end TariffRecord

/-! ## The window of a download -/

/-- The series that a download makes of its records, less those that have ended. -/
def tariffSeries (records : List TariffRecord) (now : Instant) : Series :=
  hourly marketZone (records.filter (·.endsAfter (marketZone.localTime now.hourStart))) now

/-- The last hours of days of 25 hours, from the current hour to the end of tomorrow, are published
by some records. -/
def ExtraHoursPublished (records : List TariffRecord) (now : Instant) : Prop :=
  ∀ h, h.IsHour → now.hourStart ≤ h → h < marketZone.endOfTomorrow now →
    marketZone.IsExtraHour h → ∃ r ∈ records, ∃ p, r.Publishes marketZone h p

variable {records : List TariffRecord} {now : Instant}

theorem inWindow_of_get?_tariffSeries {p : Decimal}
    (hp : (tariffSeries records now).get? h = some p) :
    h.IsHour ∧ now.hourStart ≤ h ∧ h < marketZone.endOfTomorrow now := by
  have hw := inWindow_of_get?_hourlyBetween hp
  rwa [Instant.hourStart_of_isHour (Instant.isHour_hourStart now)] at hw

theorem hourKeyed_tariffSeries (records : List TariffRecord) (now : Instant) :
    (tariffSeries records now).HourKeyed := fun _ _ hp => (inWindow_of_get?_tariffSeries hp).1

/-- The hours of the window belong to today and tomorrow. -/
theorem dayAt_of_inWindow (hle : now.hourStart ≤ h) (hlt : h < marketZone.endOfTomorrow now) :
    marketZone.dayAt now ≤ marketZone.dayAt h ∧ marketZone.dayAt h < marketZone.dayAt now + 2 := by
  constructor
  · rw [← Zone.dayAt_hourStart rfl now]
    exact marketZone.dayAt_le_dayAt hle
  · have hday := (Zone.lt_midnight_iff rfl).1 hlt
    refine Int.lt_of_lt_of_le hday ?_
    unfold Zone.daysLater
    split
    · exact Int.le_refl _
    · omega

theorem isSome_get?_tariffSeries_iff (hh : h.IsHour) (hle : now.hourStart ≤ h)
    (hlt : h < marketZone.endOfTomorrow now) :
    ((tariffSeries records now).get? h).isSome ↔
      ∃ r ∈ records, r.endsAfter (marketZone.localTime now.hourStart) ∧
        ∃ p, r.Publishes marketZone h p := by
  have hwindow : h.IsHour ∧ now.hourStart.hourStart ≤ h ∧ h < marketZone.endOfTomorrow now := by
    rw [Instant.hourStart_of_isHour (Instant.isHour_hourStart now)]
    exact ⟨hh, hle, hlt⟩
  rw [tariffSeries, hourly, isSome_get?_hourlyBetween_iff hwindow]
  simp only [List.mem_filter, and_assoc]

/-- A record that spans today and tomorrow has not ended. -/
theorem TariffRecord.Spans.endsAfter
    (hr : r.Spans (marketZone.dayAt now) (marketZone.dayAt now + 2)) :
    r.endsAfter (marketZone.localTime now.hourStart) := by
  unfold TariffRecord.endsAfter
  cases hto : r.validTo with
  | none => rfl
  | some l =>
    have hl := hr.not_ended l hto
    have hday : (marketZone.localTime now.hourStart).day = marketZone.dayAt now :=
      Zone.dayAt_hourStart rfl now
    simp only [LocalTime.day, LocalTime.asUtc, LocalTime.ofDay, TimeOfDay.midnight, Instant.le_def,
      Instant.lt_def, secondsPerDay, decide_eq_true_eq] at hl hday ⊢
    omega

/-- Of the last hours of days of 25 hours no record has ended that publishes one. -/
theorem endsAfter_of_publishes {p : Decimal} (hh : h.IsHour) (hle : now.hourStart ≤ h)
    (hextra : marketZone.IsExtraHour h) (hp : r.Publishes marketZone h p) :
    r.endsAfter (marketZone.localTime now.hourStart) := by
  rw [r.endsAfter_iff rfl (Instant.isHour_hourStart now) hh hle hp]
  rintro ⟨rfl, l, -, hmoves⟩
  exact hmoves.not_isExtraHour rfl hextra

/-- With a record that spans today and tomorrow, each hour but the last of a day of 25 hours has a
price. -/
theorem isSome_get?_tariffSeries (hr : r ∈ records)
    (hspans : r.Spans (marketZone.dayAt now) (marketZone.dayAt now + 2)) (hh : h.IsHour)
    (hle : now.hourStart ≤ h) (hlt : h < marketZone.endOfTomorrow now)
    (hextra : ¬ marketZone.IsExtraHour h) : ((tariffSeries records now).get? h).isSome := by
  obtain ⟨hfirst, hlast⟩ := dayAt_of_inWindow hle hlt
  exact (isSome_get?_tariffSeries_iff hh hle hlt).2
    ⟨r, hr, hspans.endsAfter, hspans.publishes rfl hfirst hlast hextra⟩

/-- With such a record, all hours have a price when the last hours of days of 25 hours are
published. -/
theorem forall_isSome_get?_tariffSeries_iff (hr : r ∈ records)
    (hspans : r.Spans (marketZone.dayAt now) (marketZone.dayAt now + 2)) :
    (∀ h, h.IsHour → now.hourStart ≤ h → h < marketZone.endOfTomorrow now →
      ((tariffSeries records now).get? h).isSome) ↔ ExtraHoursPublished records now := by
  constructor
  · intro hall h hh hle hlt _
    obtain ⟨r', hr', -, hp⟩ :=
      (isSome_get?_tariffSeries_iff hh hle hlt).1 (hall h hh hle hlt)
    exact ⟨r', hr', hp⟩
  · intro hpub h hh hle hlt
    by_cases hextra : marketZone.IsExtraHour h
    · obtain ⟨r', hr', p, hp⟩ := hpub h hh hle hlt hextra
      exact (isSome_get?_tariffSeries_iff hh hle hlt).2
        ⟨r', hr', endsAfter_of_publishes hh hle hextra hp, p, hp⟩
    · exact isSome_get?_tariffSeries hr hspans hh hle hlt hextra

theorem extraHoursPublished_of_not_isLongDay (records : List TariffRecord)
    (htoday : ¬ marketZone.IsLongDay (marketZone.dayAt now))
    (htomorrow : ¬ marketZone.IsLongDay (marketZone.dayAt now + 1)) :
    ExtraHoursPublished records now := by
  intro h hh hle hlt hextra
  obtain ⟨hfirst, hlast⟩ := dayAt_of_inWindow hle hlt
  have hshort : ¬ marketZone.IsLongDay (marketZone.dayAt h) := by
    obtain heq | heq : marketZone.dayAt h = marketZone.dayAt now ∨
        marketZone.dayAt h = marketZone.dayAt now + 1 := by omega
    · rwa [heq]
    · rwa [heq]
  exact absurd hextra (Zone.not_isExtraHour rfl hh hshort)

end HourlyPrices
