import HourlyPrices.Proofs.Service.Isolation
import HourlyPrices.Proofs.Tariff.Coverage

/-!
# A downloaded tariff is not downloaded again

When the answer to the request for a tariff has a record with all its values that spans today and
tomorrow, each hour but the last of a day of 25 hours has a price after the download. The tariff is
covered, and the next cycle leaves it alone, when those last hours are published too
(`Cycle.download_covers`).
-/

namespace HourlyPrices

open Activity

variable {c : Config} {v : View} {source : Source} {d : Cache} {k : Component} {q : TariffQuery}
  {records : List TariffRecord} {r : TariffRecord}

theorem Config.ne_spotPrice_of_tariffQuery? (h : c.tariffQuery? k = some q) : k ≠ .spotPrice := by
  rintro rfl
  unfold Config.tariffQuery? at h
  dsimp only at h
  split at h
  · cases h
  · cases h

/-- An answered request makes a series of the records. -/
theorem Download.run_component_of_records (hq : c.tariffQuery? k = some q)
    (hanswer : source (.tariffs k q) = .ok records) (d : Cache) :
    (∃ n, (run v source (component c k) d).value = .ok (.ok n)) ∧
      (run v source (component c k) d).cache = d.put k (tariffSeries records v.now) := by
  rw [component, if_neg (Config.ne_spotPrice_of_tariffQuery? hq), run_tariff, hq]
  simp only [hanswer]
  exact ⟨⟨_, rfl⟩, rfl⟩

namespace Cycle

/-- A cycle that requests a tariff leaves the series of the records. -/
theorem get_refresh_of_request {x : Request} (s : Schedule) (name : String) (draw : Nat)
    (hq : c.tariffQuery? k = some q) (hanswer : source (.tariffs k q) = .ok records)
    (hx : .request x ∈ (run v source (refresh c s name draw) d).effects) (hxk : x.component = k) :
    (run v source (refresh c s name draw) d).cache.get k = tariffSeries records v.now := by
  have hdownload : (run v source (download c (namedContext c name)) d).cache.get k =
      tariffSeries records v.now := by
    rw [get_download_of_request ((request_mem_refresh_iff ..).1 hx) hxk,
      (Download.run_component_of_records hq hanswer _).2, Cache.get_put_self]
  rcases get_refresh_eq_or_filterHours source s name draw d k with hsame | hdropped
  · rw [hsame, hdownload]
  · rw [hdropped, hdownload, Retention.keptFrom_of_ne (Config.ne_spotPrice_of_tariffQuery? hq)]
    exact Series.filterHours_eq_self fun t p hp =>
      decide_eq_true (inWindow_of_get?_tariffSeries hp).2.1

theorem coversTomorrow_iff_of_get (hr : r ∈ records)
    (hspans : r.Spans (marketZone.dayAt v.now) (marketZone.dayAt v.now + 2))
    (hget : d.get k = tariffSeries records v.now) :
    d.coversTomorrow k v.now ↔ ExtraHoursPublished records v.now := by
  rw [Cache.coversTomorrow_iff (hget ▸ hourKeyed_tariffSeries records v.now), hget]
  exact forall_isSome_get?_tariffSeries_iff hr hspans

/-- When the answer to the request for a tariff has a record with all its values that spans today
and tomorrow, the download succeeds, provided that the local time is representable, and each hour
from the current one to the end of tomorrow has a price, except for the last hour of a day of 25
hours. The tariff is covered, needs no download and is not requested by the next cycle exactly when
these hours are published by other records; on other days there are none. -/
theorem download_covers (c : Config) (v : View) (source : Source) (d : Cache) (k : Component)
    (q : TariffQuery) (hq : c.tariffQuery? k = some q) (records : List TariffRecord)
    (hanswer : source (.tariffs k q) = .ok records) (r : TariffRecord) (hr : r ∈ records)
    (hspans : r.Spans (marketZone.dayAt v.now) (marketZone.dayAt v.now + 2)) :
    ((marketZone.localTime? v.now).isSome →
      ∃ n, (run v source (Download.component c k) d).value = .ok (.ok n)) ∧
    (∀ h, h.IsHour → v.now.hourStart ≤ h → h < k.zone.endOfTomorrow v.now →
      ¬ marketZone.IsExtraHour h →
      (((run v source (Download.component c k) d).cache.get k).get? h).isSome) ∧
    ((run v source (Download.component c k) d).cache.coversTomorrow k v.now ↔
      ExtraHoursPublished records v.now) ∧
    (c.needsDownload (run v source (Download.component c k) d).cache k v.now = .ok false ↔
      ExtraHoursPublished records v.now) ∧
    (∀ s name draw,
      (∃ x, .request x ∈ (run v source (refresh c s name draw) d).effects ∧ x.component = k) →
      ∀ source' s' name' draw',
        ((∃ x, .request x ∈ (run v source' (refresh c s' name' draw')
            (run v source (refresh c s name draw) d).cache).effects ∧ x.component = k) ↔
          ¬ ExtraHoursPublished records v.now)) ∧
    (¬ marketZone.IsLongDay (marketZone.dayAt v.now) →
      ¬ marketZone.IsLongDay (marketZone.dayAt v.now + 1) →
      ExtraHoursPublished records v.now) := by
  obtain ⟨hvalue, hcache⟩ := Download.run_component_of_records (v := v) hq hanswer d
  have hk := Config.ne_spotPrice_of_tariffQuery? hq
  have hget : (run v source (Download.component c k) d).cache.get k =
      tariffSeries records v.now := by
    rw [hcache, Cache.get_put_self]
  refine ⟨fun _ => hvalue, ?_, coversTomorrow_iff_of_get hr hspans hget, ?_, ?_, ?_⟩
  · intro h hh hle hlt hextra
    rw [hget]
    exact isSome_get?_tariffSeries hr hspans hh hle hlt hextra
  · rw [Config.needsDownload_of_ne hk, ← coversTomorrow_iff_of_get hr hspans hget]
    simp
  · intro s name draw hfirst source' s' name' draw'
    obtain ⟨hvalid, hin, hdue⟩ := (exists_request_iff source s name draw d k).1 hfirst
    obtain ⟨x, hx, hxk⟩ := hfirst
    have hget' := get_refresh_of_request s name draw hq hanswer hx hxk
    rw [exists_request_iff, ← coversTomorrow_iff_of_get hr hspans hget']
    constructor
    · rintro ⟨-, -, hdue'⟩
      simpa [Config.needsDownload_of_ne hk] using hdue'.uncovered
    · intro huncovered
      exact ⟨hvalid, hin, hdue.needed, by simp [Config.needsDownload_of_ne hk, huncovered],
        hdue.askable⟩
  · exact extraHoursPublished_of_not_isLongDay records

/-- In winter a cycle requests a tariff that is not known, and the next one leaves it alone. -/
theorem download_covers_winter : ∃ (source : Source) (s : Schedule),
    (∃ x, .request x ∈ (run { now := .ofSeconds 1675512000, subscribed := [.current .systemTariff] }
      source (refresh {} s "first" 0) .empty).effects ∧ x.component = .systemTariff) ∧
    ¬ ∃ x, .request x ∈ (run
      { now := .ofSeconds 1675512000, subscribed := [.current .systemTariff] }
      source (refresh {} s "second" 0) (run
        { now := .ofSeconds 1675512000, subscribed := [.current .systemTariff] }
        source (refresh {} s "first" 0) .empty).cache).effects ∧ x.component = .systemTariff := by
  obtain ⟨source, records, rfl, hsource⟩ : ∃ (source : Source) (records : List TariffRecord),
      records = [.uniform 19358 { num := 1, scale := 0 }] ∧
        ∀ k q, source (.tariffs k q) = .ok records :=
    ⟨.answering (.error (.empty "No records")) (.ok _), _, rfl, fun _ _ => rfl⟩
  have hfirst := (exists_request_iff (c := {})
    (v := { now := .ofSeconds 1675512000, subscribed := [.current .systemTariff] }) source
    (.start {}) "first" 0 .empty .systemTariff).2
    ⟨rfl, fun h => absurd h (by decide), by decide, rfl, .inr rfl⟩
  refine ⟨source, .start {}, hfirst, ?_⟩
  obtain ⟨-, -, -, -, hnext, hdays⟩ := download_covers {}
    { now := .ofSeconds 1675512000, subscribed := [.current .systemTariff] } source .empty
    .systemTariff _ rfl _ (hsource _ _) _ (List.mem_singleton.2 rfl)
    (TariffRecord.spans_uniform (by decide +kernel))
  rw [hnext _ _ _ hfirst, not_not]
  exact hdays (by decide +kernel) (by decide +kernel)

/-- On the day before one of 25 hours, a tariff is not covered by a record with all its values that
is valid without end, and needs to be downloaded again at once. -/
theorem download_covers_not_longDay :
    (TariffRecord.uniform 19358 { num := 1, scale := 0 }).Spans
      (marketZone.dayAt (.ofSeconds 1698494400)) (marketZone.dayAt (.ofSeconds 1698494400) + 2) ∧
    (({} : Config).tariffQuery? .systemTariff).isSome ∧
    (run { now := .ofSeconds 1698494400 }
      (fun
        | .spot _ => .error (.empty "")
        | .tariffs _ _ => .ok [.uniform 19358 { num := 1, scale := 0 }])
      (Download.component {} .systemTariff) .empty).value = .ok (.ok 1) ∧
    ({} : Config).needsDownload (run { now := .ofSeconds 1698494400 }
      (fun
        | .spot _ => .error (.empty "")
        | .tariffs _ _ => .ok [.uniform 19358 { num := 1, scale := 0 }])
      (Download.component {} .systemTariff) .empty).cache .systemTariff (.ofSeconds 1698494400) =
      .ok true :=
  ⟨TariffRecord.spans_uniform (by decide +kernel), rfl, rfl, rfl⟩

end Cycle

end HourlyPrices
