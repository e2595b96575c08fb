import HourlyPrices.Proofs.Service.TariffDownload
import HourlyPrices.Proofs.Tariff.Ended

/-!
# Records that are left aside

A download leaves aside the records whose end the clock does not show after the current hour has
begun. Of the records that publish a price from the current hour on these are only such as end at a
time that was moved forward into it. So the series is that of all records, but for the current hour
when summer time begins with it (`Download.component_of_all_records`).
-/

namespace HourlyPrices

open Activity

variable {records : List TariffRecord} {now h : Instant} {p : Decimal}

/-- The records that are left aside do not count at an hour, unless it is the current one and they
end into it. -/
theorem get?_tariffSeries (hnone : h = now.hourStart → ∀ r ∈ records, ∀ p,
      r.Publishes marketZone h p → ¬ r.EndsInto marketZone h) :
    (tariffSeries records now).get? h = (hourly marketZone records now).get? h := by
  have hstart := Instant.isHour_hourStart now
  refine get?_hourlyBetween_filter fun ⟨hh, hle, _⟩ r hr p hp => ?_
  rw [Instant.hourStart_of_isHour hstart] at hle
  rw [r.endsAfter_iff rfl hstart hh hle hp]
  rintro ⟨rfl, hends⟩
  exact hnone rfl r hr p hp hends

/-- For the current hour the series has the price of the last record that publishes one and does not
end into the hour. -/
theorem get?_tariffSeries_hourStart :
    (tariffSeries records now).get? now.hourStart = some p ↔
      now.hourStart < marketZone.endOfTomorrow now ∧ ∃ before r after,
        records = before ++ r :: after ∧
        (¬ r.EndsInto marketZone now.hourStart ∧ r.Publishes marketZone now.hourStart p) ∧
        ∀ r' ∈ after, ∀ q, ¬ (¬ r'.EndsInto marketZone now.hourStart ∧
          r'.Publishes marketZone now.hourStart q) := by
  have hstart := Instant.isHour_hourStart now
  have hends : ∀ (r : TariffRecord) (q : Decimal),
      (r.endsAfter (marketZone.localTime now.hourStart) ∧
        r.Publishes marketZone now.hourStart q) ↔
      (¬ r.EndsInto marketZone now.hourStart ∧ r.Publishes marketZone now.hourStart q) :=
    fun r q => and_congr_left fun hr => by
      simp [r.endsAfter_iff rfl hstart hstart (Instant.le_refl _) hr]
  by_cases hw : now.hourStart < marketZone.endOfTomorrow now
  · have hwindow : now.hourStart.IsHour ∧ now.hourStart.hourStart ≤ now.hourStart ∧
        now.hourStart < marketZone.endOfTomorrow now :=
      ⟨hstart, Instant.hourStart_le _, hw⟩
    rw [tariffSeries, hourly, get?_hourlyBetween_filter_eq_some_iff _ hwindow]
    simp only [hends, hw, true_and]
  · exact iff_of_false (fun hp => hw (inWindow_of_get?_tariffSeries hp).2.2) fun hp => hw hp.1

namespace Download

/-- After a download the series of a tariff is that of all records, but for the current hour. For
this hour it has the price of the last record that publishes one and does not end at a time that was
moved forward into the hour. So it is the series of all records when no record that publishes a
price for the current hour ends into it, and always when the clock is not put forward with the
hour. -/
theorem component_of_all_records (c : Config) (v : View) (source : Source) (d : Cache)
    (k : Component) (q : TariffQuery) (hq : c.tariffQuery? k = some q)
    (records : List TariffRecord) (hanswer : source (.tariffs k q) = .ok records) :
    (∀ h, h ≠ v.now.hourStart →
      ((run v source (component c k) d).cache.get k).get? h =
        (hourly marketZone records v.now).get? h) ∧
    (∀ p, ((run v source (component c k) d).cache.get k).get? v.now.hourStart = some p ↔
      v.now.hourStart < marketZone.endOfTomorrow v.now ∧ ∃ before r after,
        records = before ++ r :: after ∧
        (¬ r.EndsInto marketZone v.now.hourStart ∧
          r.Publishes marketZone v.now.hourStart p) ∧
        ∀ r' ∈ after, ∀ q, ¬ (¬ r'.EndsInto marketZone v.now.hourStart ∧
          r'.Publishes marketZone v.now.hourStart q)) ∧
    ((∀ r ∈ records, ∀ p, r.Publishes marketZone v.now.hourStart p →
        ¬ r.EndsInto marketZone v.now.hourStart) →
      (run v source (component c k) d).cache = d.put k (hourly marketZone records v.now)) ∧
    (marketZone.table.offsetAt v.now.hourStart.seconds ≤
        marketZone.table.offsetAt (v.now.hourStart.seconds - 1) →
      (run v source (component c k) d).cache = d.put k (hourly marketZone records v.now)) := by
  have hcache := (run_component_of_records (v := v) hq hanswer d).2
  have hall : (∀ r ∈ records, ∀ p, r.Publishes marketZone v.now.hourStart p →
      ¬ r.EndsInto marketZone v.now.hourStart) →
      tariffSeries records v.now = hourly marketZone records v.now := fun hnone =>
    Series.ext_get? fun h => get?_tariffSeries fun heq => heq ▸ hnone
  rw [hcache, Cache.get_put_self]
  refine ⟨fun h hne => get?_tariffSeries fun heq => absurd heq hne,
    fun p => get?_tariffSeries_hourStart, fun hnone => by rw [hall hnone], fun hoffset => ?_⟩
  rw [hall]
  rintro r - p - ⟨l, -, hmoves⟩
  exact absurd (hmoves.offset_lt rfl) (Int.not_lt.2 hoffset)

/-- Before summer time begins, a record that ends at 02:30, which the clock leaves out, gives its
price to the hour from 03:00 on. -/
theorem component_of_all_records_before_gap :
    ((run { now := .ofSeconds 1679791500 }
      (fun
        | .spot _ => .error (.empty "")
        | .tariffs _ _ =>
          .ok [.flat { seconds := 1672531200 } { seconds := 1679797800 } .one])
      (component {} .systemTariff) .empty).cache.get .systemTariff).get? (.ofSeconds 1679792400) =
      some .one := by
  rw [(component_of_all_records {} { now := .ofSeconds 1679791500 } _ .empty .systemTariff _ rfl _
    rfl).1 _ (by decide)]
  decide +kernel

/-- When summer time has begun, the same record is left aside, and the price that the records have
for the current hour is lost. -/
theorem component_loses_current_hour :
    ((run { now := .ofSeconds 1679792400 }
      (fun
        | .spot _ => .error (.empty "")
        | .tariffs _ _ =>
          .ok [.flat { seconds := 1672531200 } { seconds := 1679797800 } .one])
      (component {} .systemTariff) .empty).cache.get .systemTariff).get? (.ofSeconds 1679792400) =
      none ∧
    (hourly marketZone [.flat { seconds := 1672531200 } { seconds := 1679797800 } .one]
      (.ofSeconds 1679792400)).get? (.ofSeconds 1679792400) = some .one :=
  ⟨by rfl, by decide +kernel⟩

end Download

end HourlyPrices
