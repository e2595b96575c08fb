import HourlyPrices.Proofs.Dataset.SpotPrices
import HourlyPrices.Proofs.Service.Run
import HourlyPrices.Service.Download

/-!
# What a download does

A download makes at most one request. It leaves the cache as it is, or replaces the series of its
component (`Download.run_component_cases`); what it does is determined by the series that it finds
and by the answers to requests for its component (`Download.run_component_alone`,
`Download.run_component_congr`). It can only overflow at the start of the window of past hours,
which depends on the clock and the configuration alone.
-/

namespace HourlyPrices

open Activity

/-- A source with one answer to all requests for spot prices and one to all requests for tariffs. -/
def Source.answering (spot : Except Fault (List SpotRecord))
    (tariffs : Except Fault (List TariffRecord)) : Source
  | .spot _ => spot
  | .tariffs _ _ => tariffs

namespace Cache

@[simp] theorem get_put_self (d : Cache) (k : Component) (s : Series) : (d.put k s).get k = s := by
  rw [get_put, if_pos rfl]

theorem get_put_of_ne {k l : Component} (h : l ≠ k) (d : Cache) (s : Series) :
    (d.put k s).get l = d.get l := by
  rw [get_put, if_neg h]

@[simp] theorem put_get_self (d : Cache) (k : Component) : d.put k (d.get k) = d := by
  cases k <;> rfl

@[simp] theorem put_put (d : Cache) (k : Component) (s t : Series) :
    (d.put k s).put k t = d.put k t := by
  cases k <;> rfl

/-- The cache that holds nothing but the series of one component. -/
def alone (d : Cache) (k : Component) : Cache := empty.put k (d.get k)

@[simp] theorem get_alone (d : Cache) (k : Component) : (d.alone k).get k = d.get k := by
  rw [alone, get_put_self]

/-- Whether past hours are known is seen from the series of the component. -/
theorem coversHistory_congr {d d' : Cache} {k : Component} (h : d.get k = d'.get k) (r : Retention)
    (now : Instant) : d.coversHistory r k now = d'.coversHistory r k now := by
  simp only [coversHistory, h]

theorem coversTomorrow_congr {d d' : Cache} {k : Component} (h : d.get k = d'.get k)
    (now : Instant) : d.coversTomorrow k now = d'.coversTomorrow k now := by
  simp only [coversTomorrow, h]

end Cache

namespace Config

variable {c : Config} {k : Component}

theorem wantsHistory_congr {d d' : Cache} (h : d.get .spotPrice = d'.get .spotPrice)
    (now : Instant) : c.wantsHistory d now = c.wantsHistory d' now := by
  simp only [wantsHistory, Cache.coversHistory_congr h]

/-- Whether a component has to be downloaded is seen from its own series. -/
theorem needsDownload_congr {d d' : Cache} (h : d.get k = d'.get k) (now : Instant) :
    c.needsDownload d k now = c.needsDownload d' k now := by
  by_cases hk : k = .spotPrice
  · subst hk
    simp only [needsDownload, wantsHistory_congr h, Cache.coversTomorrow_congr h]
  · simp only [needsDownload, if_neg hk, Cache.coversTomorrow_congr h]

/-- Past hours can be asked for unless the window of past hours starts out of range. -/
theorem exists_wantsHistory {t now : Instant} (h : Cache.cutoff c.cache .spotPrice now = .ok t)
    (d : Cache) : ∃ history, c.wantsHistory d now = .ok history := by
  unfold wantsHistory
  split
  · rename_i hk
    rw [Cache.cutoff, if_pos ⟨rfl, hk⟩] at h
    exact ⟨_, by rw [Cache.coversHistory, h]; rfl⟩
  · exact ⟨false, rfl⟩

theorem wantsHistory_of_error {o : Overflow} {now : Instant}
    (h : Cache.cutoff c.cache .spotPrice now = .error o) (d : Cache) :
    c.wantsHistory d now = .error o := by
  by_cases hk : c.cache.keepHistoricSpot
  · rw [Cache.cutoff, if_pos ⟨rfl, hk⟩] at h
    rw [wantsHistory, if_pos hk, Cache.coversHistory, h]
    rfl
  · rw [Cache.cutoff, if_neg (fun hc => hk hc.2)] at h
    cases h

theorem needsDownload_of_ne (hk : k ≠ .spotPrice) (d : Cache) (now : Instant) :
    c.needsDownload d k now = .ok (!d.coversTomorrow k now) := by
  rw [needsDownload, if_neg hk]
  rfl

theorem needsDownload_spotPrice {d : Cache} {now : Instant} {history : Bool}
    (h : c.wantsHistory d now = .ok history) :
    c.needsDownload d .spotPrice now = .ok (history || !d.coversTomorrow .spotPrice now) := by
  rw [needsDownload, if_pos rfl, h]
  cases history <;> rfl

theorem needsDownload_spotPrice_of_error {d : Cache} {now : Instant} {o : Overflow}
    (h : c.wantsHistory d now = .error o) : c.needsDownload d .spotPrice now = .error o := by
  rw [needsDownload, if_pos rfl, h]
  rfl

/-- Whether a component has to be downloaded is known unless the window of past hours is needed for
it and starts out of range. -/
theorem needsDownload_eq_error_iff {d : Cache} {now : Instant} {o : Overflow} :
    c.needsDownload d k now = .error o ↔
      k = .spotPrice ∧ Cache.cutoff c.cache .spotPrice now = .error o := by
  by_cases hk : k = .spotPrice
  · subst hk
    cases hcut : Cache.cutoff c.cache .spotPrice now with
    | error o' => simp [needsDownload_spotPrice_of_error (wantsHistory_of_error hcut d)]
    | ok t =>
      obtain ⟨history, hh⟩ := exists_wantsHistory hcut d
      simp [needsDownload_spotPrice hh]
  · simp [needsDownload_of_ne hk, hk]

end Config

namespace SpotRecord

/-- The hours of the records that have a price. -/
def pricedHours (records : List SpotRecord) (currency : Currency) : List Instant :=
  (records.filter fun r => (r.price? currency).isSome).map (·.hour)

theorem mem_pricedHours {records : List SpotRecord} {currency : Currency} {t : Instant} :
    t ∈ pricedHours records currency ↔
      ∃ r ∈ records, r.hour = t ∧ (r.price? currency).isSome := by
  simp only [pricedHours, List.mem_map, List.mem_filter, and_assoc]
  exact exists_congr fun r => and_congr_right fun _ => and_comm

/-- The division by the kilowatt-hours of a megawatt-hour never overflows. -/
theorem exists_seriesPerKwh (records : List SpotRecord) (currency : Currency) :
    ∃ s, seriesPerKwh records currency = .ok s := ⟨_, seriesPerKwh_eq records currency⟩

end SpotRecord

/-- An outcome that has been found with the series of one component alone, in a whole cache. -/
def Activity.Outcome.within {α : Type} (o : Outcome α) (d : Cache) (k : Component) : Outcome α :=
  { o with cache := d.put k (o.cache.get k) }

namespace Download

variable {v : View} {source source' : Source} {c : Config} {k : Component} {d : Cache}

/-- The series that spot prices make together with the one before. -/
def spotSeries (c : Config) (history : Bool) (now : Instant) (received cached : Series) : Series :=
  if c.cache.keepHistoricSpot && !history then received.withPast cached now.hourStart else received

/-- A download of spot prices stops where past hours are out of range, keeps the series after a
fault, and makes a series of records. -/
theorem run_spot (v : View) (source : Source) (c : Config) (d : Cache) :
    run v source (spot c) d = match c.wantsHistory d v.now with
      | .error o => ⟨[], d, .error o⟩
      | .ok history => match source (.spot (c.spotQuery history)) with
        | .error f => ⟨[.request (.spot (c.spotQuery history))], d, .ok (.error f)⟩
        | .ok records =>
          match SpotRecord.seriesPerKwh records c.service.currency with
          | .error o => ⟨[.request (.spot (c.spotQuery history))], d, .error o⟩
          | .ok received =>
            ⟨[.request (.spot (c.spotQuery history)), .log (c.serviceContext.event .debug
                s!"Received {records.length} spot price records ({(c.spotStart history).toText})")],
              d.put .spotPrice (spotSeries c history v.now received (d.get .spotPrice)),
              .ok (.ok records.length)⟩ := by
  simp only [spot, run_cached_bind, run_view_bind]
  cases c.wantsHistory d v.now with
  | error o => rfl
  | ok history =>
    simp only [run_lift_ok_bind]
    rw [run_ask_bind]
    cases source (.spot (c.spotQuery history)) with
    | error f => rfl
    | ok records =>
      simp only [Config.spotQuery]
      cases SpotRecord.seriesPerKwh records c.service.currency with
      | error o => rfl
      | ok received => rfl

/-- A download of a tariff keeps the series without a charge owner and after a fault, and makes a
series of records. -/
theorem run_tariff (v : View) (source : Source) (c : Config) (k : Component) (d : Cache) :
    run v source (tariff c k) d = match c.tariffQuery? k with
      | none => ⟨[.log (c.serviceContext.event .debug
          s!"No charge owner configured for {k.name}, skipping")], d, .ok (.ok 0)⟩
      | some query => match source (.tariffs k query) with
        | .error f => ⟨[.request (.tariffs k query)], d, .ok (.error f)⟩
        | .ok records =>
          let records := records.filter (·.endsAfter (marketZone.localTime v.now.hourStart))
          let series := hourly marketZone records v.now
          ⟨[.request (.tariffs k query), .log (c.serviceContext.event .debug
              s!"Received {records.length} {k.name} records covering {series.size} hours")],
            d.put k series, .ok (.ok records.length)⟩ := by
  unfold tariff
  cases c.tariffQuery? k with
  | none => rfl
  | some query =>
    simp only [run_view_bind]
    rw [run_ask_bind]
    cases source (.tariffs k query) with
    | error f => rfl
    | ok records => rfl

/-- What a download can do: overflow before its request, make no request, or make one and then keep
the series or replace it. -/
theorem run_component_cases (v : View) (source : Source) (c : Config) (k : Component) (d : Cache) :
    (∃ o, k = .spotPrice ∧ Cache.cutoff c.cache .spotPrice v.now = .error o ∧
      run v source (component c k) d = ⟨[], d, .error o⟩) ∨
    (∃ e, k ≠ .spotPrice ∧ c.tariffQuery? k = none ∧
      run v source (component c k) d = ⟨[.log e], d, .ok (.ok 0)⟩) ∨
    (∃ r, (k = .spotPrice ∨ (c.tariffQuery? k).isSome) ∧ r.component = k ∧
      ((∃ f, source r = .error f ∧
        run v source (component c k) d = ⟨[.request r], d, .ok (.error f)⟩) ∨
      ∃ records e s n, source r = .ok records ∧
        run v source (component c k) d = ⟨[.request r, .log e], d.put k s, .ok (.ok n)⟩)) := by
  unfold component
  split
  · rename_i hk
    subst hk
    have hrun := run_spot v source c d
    cases hcut : Cache.cutoff c.cache .spotPrice v.now with
    | error o =>
      rw [Config.wantsHistory_of_error hcut] at hrun
      exact .inl ⟨o, rfl, rfl, hrun⟩
    | ok t =>
      obtain ⟨history, hh⟩ := Config.exists_wantsHistory hcut d
      rw [hh] at hrun
      refine .inr (.inr ⟨.spot (c.spotQuery history), .inl rfl, rfl, ?_⟩)
      cases ha : source (.spot (c.spotQuery history)) with
      | error f =>
        simp only [ha] at hrun
        exact .inl ⟨f, rfl, hrun⟩
      | ok records =>
        obtain ⟨s, hs⟩ := SpotRecord.exists_seriesPerKwh records c.service.currency
        simp only [ha, hs] at hrun
        exact .inr ⟨records, _, _, _, rfl, hrun⟩
  · rename_i hk
    have hrun := run_tariff v source c k d
    cases hq : c.tariffQuery? k with
    | none =>
      rw [hq] at hrun
      exact .inr (.inl ⟨_, hk, rfl, hrun⟩)
    | some query =>
      refine .inr (.inr ⟨.tariffs k query, .inr rfl, rfl, ?_⟩)
      cases ha : source (.tariffs k query) with
      | error f =>
        simp only [hq, ha] at hrun
        exact .inl ⟨f, rfl, hrun⟩
      | ok records =>
        simp only [hq, ha] at hrun
        exact .inr ⟨records, _, _, _, rfl, hrun⟩

/-- A download runs on the series of its component alone. -/
theorem run_component_alone (v : View) (source : Source) (c : Config) (k : Component) (d : Cache) :
    run v source (component c k) d = (run v source (component c k) (d.alone k)).within d k := by
  unfold component
  split
  · rename_i hk
    subst hk
    rw [run_spot, run_spot, Config.wantsHistory_congr (d.get_alone .spotPrice)]
    cases c.wantsHistory d v.now with
    | error o => simp [Outcome.within]
    | ok history =>
      simp only [Cache.get_alone]
      cases source (.spot (c.spotQuery history)) with
      | error f => simp [Outcome.within]
      | ok records =>
        simp only
        cases SpotRecord.seriesPerKwh records c.service.currency <;> simp [Outcome.within]
  · rw [run_tariff, run_tariff]
    cases c.tariffQuery? k with
    | none => simp [Outcome.within]
    | some query => cases ha : source (.tariffs k query) <;> simp [Outcome.within, ha]

/-- A download heeds the answers to requests for its component only. -/
theorem run_component_congr (h : ∀ r, r.component = k → source r = source' r) (v : View)
    (c : Config) (d : Cache) :
    run v source (component c k) d = run v source' (component c k) d := by
  unfold component
  split
  · rename_i hk
    subst hk
    rw [run_spot, run_spot]
    cases c.wantsHistory d v.now with
    | error o => rfl
    | ok history => simp only [h (.spot (c.spotQuery history)) rfl]
  · rw [run_tariff, run_tariff]
    cases c.tariffQuery? k with
    | none => rfl
    | some query => simp only [h (.tariffs k query) rfl]

end Download

end HourlyPrices
