import HourlyPrices.FuturePrice
import HourlyPrices.Proofs.Service.Keeps
import HourlyPrices.Proofs.Service.SpotDownload
import HourlyPrices.Proofs.Service.TariffDownload

/-!
# Prices at clock hours

Tariffs are cached at clock hours, whatever their records hold. Spot prices are cached at the
instants of their records, so they stand at clock hours when the records do
(`Cache.hourKeyed_of_spotOnHours`). Only then is each price seen under its hour, and one for each
hour (`Cache.SeenByHour`).
-/

namespace HourlyPrices

open Activity

variable {c : Config} {v : View} {source : Source} {d e : Cache} {k : Component} {s : Series}
  {now t : Instant}

namespace Series

theorem hourKeyed_iff_hours : s.HourKeyed ↔ ∀ t ∈ s.hours, t.IsHour := by
  constructor
  · intro hs t ht
    obtain ⟨p, hp⟩ := Option.isSome_iff_exists.1 (mem_hours_iff.1 ht)
    exact hs t p hp
  · intro hs t p hp
    exact hs t (mem_hours_iff.2 (Option.isSome_iff_exists.2 ⟨p, hp⟩))

end Series

/-- The spot records of an answer that have a price start at clock hours. -/
def SpotOnHours : (r : Request) → r.Answer → Prop
  | .spot q, answer => ∀ records, answer = .ok records →
    ∀ h ∈ SpotRecord.pricedHours records q.currency, h.IsHour
  | .tariffs _ _, _ => True

namespace Cache

/-- All prices stand at clock hours. -/
def HourKeyed (d : Cache) : Prop := ∀ k, (d.get k).HourKeyed

theorem hourKeyed_empty : empty.HourKeyed := by
  intro k
  rw [get_empty]
  exact Series.hourKeyed_empty

theorem HourKeyed.put (hd : d.HourKeyed) (hs : s.HourKeyed) (k : Component) :
    (d.put k s).HourKeyed := by
  intro l
  rw [get_put]
  split
  · exact hs
  · exact hd l

theorem HourKeyed.cleanup {r : Retention} (hd : d.HourKeyed) (he : d.cleanup r now = .ok e) :
    e.HourKeyed := by
  intro k t p hp
  exact hd k t p ((get?_cleanup he k t p).1 hp).1

/-- Each price is the value throughout its clock hour, and there is one for each hour. Then a
component is covered when it has a value at each instant until the end of tomorrow, and the curve
of future prices gives the values of the tariffs at the hours of the spot price. -/
structure SeenByHour (d : Cache) : Prop where
  value : ∀ k h p, (d.get k).get? h = some p →
    ∀ t, t.hourStart = h.hourStart → d.valueAt? k t = some p
  single : ∀ k, ∀ h ∈ (d.get k).hours, ∀ h' ∈ (d.get k).hours, h.hourStart = h'.hourStart → h = h'
  coverage : ∀ k now, d.coversTomorrow k now ↔
    ∀ t, now.hourStart ≤ t → t < k.zone.endOfTomorrow now → (d.valueAt? k t).isSome
  curve : ∀ currency, FuturePrice.curve d currency = d.spotPrice.entries.map fun (hour, spot) =>
    (Component.all.filter (·.isTariff)).foldl (fun p k => p.set k (d.valueAt? k hour))
      (.ofSpot hour spot currency)

theorem valueAt?_of_isHour (h : t.IsHour) (d : Cache) (k : Component) :
    d.valueAt? k t = (d.get k).get? t := by
  rw [valueAt?, Instant.hourStart_of_isHour h]

theorem HourKeyed.isHour_of_mem (hd : d.HourKeyed) (ht : t ∈ (d.get k).hours) : t.IsHour :=
  Series.hourKeyed_iff_hours.1 (hd k) t ht

theorem HourKeyed.coversTomorrow_iff (hd : d.HourKeyed) : d.coversTomorrow k now ↔
    ∀ t, now.hourStart ≤ t → t < k.zone.endOfTomorrow now → (d.valueAt? k t).isSome := by
  rw [Cache.coversTomorrow_iff (hd k)]
  constructor
  · intro hall t hle hlt
    apply hall t.hourStart (Instant.isHour_hourStart t)
    · rw [← Instant.hourStart_of_isHour (Instant.isHour_hourStart now)]
      exact Instant.hourStart_mono hle
    · exact Instant.lt_of_le_of_lt (Instant.hourStart_le t) hlt
  · intro hall h hh hle hlt
    rw [← valueAt?_of_isHour hh]
    exact hall h hle hlt

/-- Prices are seen by their hours exactly when they stand at clock hours. -/
theorem hourKeyed_iff_seenByHour : d.HourKeyed ↔ d.SeenByHour := by
  constructor
  · intro hd
    refine ⟨?_, ?_, fun k now => hd.coversTomorrow_iff, ?_⟩
    · intro k h p hp t ht
      rw [valueAt?, ht, Instant.hourStart_of_isHour (hd k h p hp)]
      exact hp
    · intro k h hh h' hh' he
      rwa [Instant.hourStart_of_isHour (hd.isHour_of_mem hh),
        Instant.hourStart_of_isHour (hd.isHour_of_mem hh')] at he
    · intro currency
      apply List.map_congr_left
      rintro ⟨hour, spot⟩ hmem
      have hhour : hour.IsHour := hd .spotPrice hour spot (Series.mem_entries_iff.1 hmem)
      simp only [valueAt?_of_isHour hhour]
  · intro hd k h p hp
    -- The start of its hour has a price too, and there is only one price in the hour.
    have hstart := hd.value k h p hp h rfl
    have hmem : h ∈ (d.get k).hours := Series.mem_hours_iff.2 (Option.isSome_iff_exists.2 ⟨p, hp⟩)
    have hmem' : h.hourStart ∈ (d.get k).hours :=
      Series.mem_hours_iff.2 (Option.isSome_iff_exists.2 ⟨p, hstart⟩)
    rw [hd.single k h hmem h.hourStart hmem'
      (Instant.hourStart_of_isHour (Instant.isHour_hourStart h)).symm]
    exact Instant.isHour_hourStart h

end Cache

namespace Download

theorem hourKeyed_spotSeries {history : Bool} {received cached : Series}
    (hreceived : received.HourKeyed) (hcached : cached.HourKeyed) :
    (spotSeries c history now received cached).HourKeyed := by
  rw [Series.hourKeyed_iff_hours] at *
  intro t ht
  obtain ht | ⟨-, -, -, ht⟩ := mem_hours_spotSeries.1 ht
  · exact hreceived t ht
  · exact hcached t ht

theorem keeps_hourKeyed (c : Config) (k : Component) :
    (component c k).Keeps Cache.HourKeyed SpotOnHours := by
  unfold component
  split
  · unfold spot
    apply Keeps.cached_bind
    intro _ _
    apply Keeps.view_bind
    intro _
    apply Keeps.lift_bind
    intro history _
    apply Keeps.ask_bind
    intro answer hanswer
    cases answer with
    | error f => exact Keeps.pure _
    | ok records =>
      apply Keeps.lift_bind
      intro received hreceived
      apply Keeps.view_bind
      intro v
      apply Keeps.cached_bind
      intro d hd
      apply Keeps.log_bind
      refine Keeps.store_bind (hd.put ?_ _) (Keeps.pure _)
      apply hourKeyed_spotSeries
      · rw [Series.hourKeyed_iff_hours]
        intro t ht
        exact hanswer records rfl t ((SpotRecord.mem_hours_seriesPerKwh hreceived).1 ht)
      · exact hd .spotPrice
  · unfold tariff
    cases c.tariffQuery? k with
    | none => exact Keeps.log_bind (Keeps.pure _)
    | some query =>
      apply Keeps.view_bind
      intro v
      apply Keeps.ask_bind
      intro answer _
      cases answer with
      | error f => exact Keeps.pure _
      | ok records =>
        apply Keeps.log_bind
        apply Keeps.cached_bind
        intro d hd
        exact Keeps.store_bind (hd.put (hourKeyed_tariffSeries records v.now) k) (Keeps.pure _)

theorem kept_hourKeyed (c : Config) : Kept c Cache.HourKeyed SpotOnHours where
  download := keeps_hourKeyed c
  cleanup _ _ _ hd he := hd.cleanup he

theorem hourKeyed_run_of_ne (hk : k ≠ .spotPrice) (hd : (d.get k).HourKeyed) :
    ((run v source (component c k) d).cache.get k).HourKeyed := by
  rw [component, if_neg hk, run_tariff]
  cases c.tariffQuery? k with
  | none => exact hd
  | some query =>
    dsimp only
    cases source (.tariffs k query) with
    | error f => exact hd
    | ok records =>
      dsimp only
      rw [Cache.get_put_self]
      exact hourKeyed_tariffSeries records v.now

/-- A download of spot prices leaves prices at clock hours exactly when the records that have a
price start at clock hours, and so do the past hours that are kept. -/
theorem hourKeyed_run_spotPrice_iff {history : Bool} {records : List SpotRecord}
    (hhistory : c.wantsHistory d v.now = .ok history)
    (hanswer : source (.spot (c.spotQuery history)) = .ok records) :
    ((run v source (component c .spotPrice) d).cache.get .spotPrice).HourKeyed ↔
      (∀ h ∈ SpotRecord.pricedHours records c.service.currency, h.IsHour) ∧
        ∀ h, KeepsPast c history v.now (d.get .spotPrice) h → h.IsHour := by
  rw [Series.hourKeyed_iff_hours, ← forall_and]
  refine forall_congr' fun t => ?_
  rw [mem_hours_run_spotPrice hhistory hanswer, or_imp]

/-- As long as the spot records that have a price start at clock hours, all prices in the cache
stand at clock hours, however the activities of the service are mixed. Tariffs stand there whatever
their records hold; spot prices do so after a download exactly when the records that have a price
and the past hours that are kept do. And exactly the caches with all prices at clock hours show each
price under its hour, and one for each hour. -/
theorem hourKeyed_of_spotOnHours (c : Config) :
    (∀ σ, Pool.Reachable c SpotOnHours σ → σ.cache.HourKeyed) ∧
    (∀ v source d k, k ≠ .spotPrice → (d.get k).HourKeyed →
      ((run v source (component c k) d).cache.get k).HourKeyed) ∧
    (∀ v source d history records, c.wantsHistory d v.now = .ok history →
      source (.spot (c.spotQuery history)) = .ok records →
        (((run v source (component c .spotPrice) d).cache.get .spotPrice).HourKeyed ↔
          (∀ h ∈ SpotRecord.pricedHours records c.service.currency, h.IsHour) ∧
            ∀ h, KeepsPast c history v.now (d.get .spotPrice) h → h.IsHour)) ∧
    ∀ d : Cache, d.HourKeyed ↔ d.SeenByHour := by
  refine ⟨?_, ?_, ?_, fun d => Cache.hourKeyed_iff_seenByHour⟩
  · intro σ hσ
    exact (hσ.invariant (kept_hourKeyed c) Cache.hourKeyed_empty).cache
  · intro v source d k hk hd
    exact hourKeyed_run_of_ne hk hd
  · intro v source d history records hhistory hanswer
    exact hourKeyed_run_spotPrice_iff hhistory hanswer

/-- After a download of a record that starts at noon, its price is the value at half past noon. -/
theorem hourKeyed_of_spotOnHours_noon : ∃ σ, Pool.Reachable {} SpotOnHours σ ∧
    σ.cache.valueAt? .spotPrice (.ofSeconds 1675513800) = some .one := by
  obtain ⟨source, hsource⟩ : ∃ source : Source, source = .answering
      (.ok [{ hour := .ofSeconds 1675512000, dkk := some { num := 1000, scale := 0 } }]) (.ok []) :=
    ⟨_, rfl⟩
  have hanswers : ∀ r, SpotOnHours r (source r) := by
    subst hsource
    rintro (q | ⟨k, q⟩)
    · intro records hrecords h hh
      cases hrecords
      obtain ⟨x, hx, rfl⟩ := List.mem_map.1 hh
      obtain rfl := List.mem_singleton.1 (List.mem_filter.1 hx).1
      decide
    · trivial
  obtain ⟨a, hreachable⟩ := (Pool.Reachable.start.begin (.download .spotPrice)).run hanswers
    { now := .ofSeconds 1675512000 }
  obtain ⟨hkeyed, -, -, hseen⟩ := hourKeyed_of_spotOnHours {}
  refine ⟨_, hreachable, ((hseen _).1 (hkeyed _ hreachable)).value .spotPrice
    (.ofSeconds 1675512000) .one ?_ _ rfl⟩
  subst hsource
  rfl

/-- A record that starts at half past noon is cached at half past noon, where it is not seen. -/
theorem hourKeyed_not_of_halfHour : ∃ (r : Http.Response) (e : Envelope SpotRecord)
    (source : Source) (d : Cache), r.isSuccess ∧ Client.spotAnswer r = .ok e ∧
    source (.spot (({} : Config).spotQuery false)) = .ok e.present ∧
    d = (run { now := .ofSeconds 1675512000 } source (component {} .spotPrice) .empty).cache ∧
    (d.get .spotPrice).hours = [.ofSeconds 1675513800] ∧
    ¬ (Instant.ofSeconds 1675513800).IsHour ∧
    d.valueAt? .spotPrice (.ofSeconds 1675513800) = none := by
  refine ⟨{ body := ("\x7b\"total\":1,\"records\":[\x7b\"HourUTC\":\"2023-02-04T12:30:00\"," ++
      "\"SpotPriceDKK\":1000\x7d]\x7d").toUTF8.toList },
    { total := 1, records := [some
      { hour := .ofSeconds 1675513800, dkk := some { num := 1000, scale := 0 } }] },
    .answering (.ok
      [{ hour := .ofSeconds 1675513800, dkk := some { num := 1000, scale := 0 } }]) (.ok []),
    _, rfl, ?_, rfl, rfl, rfl, ?_, rfl⟩
  · decide +kernel
  · decide

end Download

end HourlyPrices
