import HourlyPrices.Proofs.Cache.Retention
import HourlyPrices.Proofs.Service.SpotDownload

/-!
# Spot prices over the window of past hours

Past hours are asked for when they are kept and no known hour reaches back to the start of the
window (`Config.wantsHistory_eq_ok_iff`). So a download replaces all spot prices when it has asked
for past hours or none are kept, and otherwise lays the answer over the past hours that are known
(`Download.spot_download_exact`); no hour ahead that the answer leaves out stays.
-/

namespace HourlyPrices

open Activity

variable {c : Config} {v : View} {source : Source} {d : Cache} {now : Instant} {history : Bool}

theorem Series.get?_withPast (received cached : Series) (hour t : Instant) :
    (received.withPast cached hour).get? t =
      (received.get? t).or (if t < hour then cached.get? t else none) := by
  rw [withPast, get?_insertAll_entries, get?_filterHours]
  simp only [decide_eq_true_eq]

/-! ## Asking for past hours -/

theorem Cache.coversHistory_eq_ok_iff {r : Retention} {k : Component} {b : Bool} :
    d.coversHistory r k now = .ok b ↔ ∃ start, historicStart r now = .ok start ∧
      (b ↔ ∃ t ∈ (d.get k).hours, t ≤ start) := by
  unfold coversHistory
  cases historicStart r now with
  | error o => exact iff_of_false (fun h => by cases h) fun ⟨_, h, _⟩ => by cases h
  | ok start =>
    simp only [Except.ok.injEq, exists_eq_left', ← Series.firstHour?_any_le_iff, ← Bool.eq_iff_iff]
    cases (d.get k).firstHour? <;>
      exact ⟨fun h => (Except.ok.inj h).symm, fun h => congrArg Except.ok h.symm⟩

theorem Config.wantsHistory_eq_ok_iff : c.wantsHistory d now = .ok history ↔
    c.cache.Representable now ∧ (history ↔ c.cache.keepHistoricSpot ∧
      ∀ t ∈ (d.get .spotPrice).hours,
        ¬ t ≤ .ofSeconds (now.hourStart.seconds - c.cache.historicHours * secondsPerHour)) := by
  unfold wantsHistory Retention.Representable Retention.keptFrom
  by_cases hkeep : c.cache.keepHistoricSpot
  · have hcovers : (do return !(← d.coversHistory c.cache .spotPrice now)) = .ok history ↔
        d.coversHistory c.cache .spotPrice now = .ok (!history) := by
      cases d.coversHistory c.cache .spotPrice now with
      | error o => exact iff_of_false (fun h => by cases h) fun h => by cases h
      | ok b => cases b <;> cases history <;> decide
    rw [if_pos hkeep, hcovers, Cache.coversHistory_eq_ok_iff]
    simp only [Cache.historicStart_eq_ok_iff, hkeep, and_self, if_true, forall_const, true_and,
      and_assoc, exists_eq_left]
    refine and_congr_right fun _ => ?_
    cases history <;> simp
  · simp [hkeep]

namespace Download

/-- Whatever is cached and whatever the source answers, a download of spot prices stops before its
request where the window of past hours is kept and starts out of range. Elsewhere it makes one
request, which asks for the past hours of the window exactly when they are kept and no hour with a
price reaches back to its start. A fault leaves the cache as it is. An answer with records replaces
all spot prices when past hours were asked for or are not kept; when they are kept and were not
asked for, its prices stand over those of the past hours that were cached, and at no other hour
is there a price from before. -/
theorem spot_download_exact (c : Config) (v : View) (source : Source) (d : Cache) :
    (¬ c.cache.Representable v.now →
      run v source (component c .spotPrice) d = ⟨[], d, .error .time⟩) ∧
    (c.cache.Representable v.now → ∃ (history : Bool) (query : SpotQuery),
      (history ↔ c.cache.keepHistoricSpot ∧
        ∀ t ∈ (d.get .spotPrice).hours, ¬ t ≤
          .ofSeconds (v.now.hourStart.seconds - c.cache.historicHours * secondsPerHour)) ∧
      query = ⟨c.service.priceArea, c.service.currency, .anchored .utcNow
        (if history then some ⟨.hours, -(c.cache.historicHours : Int)⟩ else none)⟩ ∧
      (∃ es : List LogEvent, (run v source (component c .spotPrice) d).effects =
        .request (.spot query) :: es.map .log) ∧
      (∀ f, source (.spot query) = .error f →
        Refused (run v source (component c .spotPrice) d) d f) ∧
      ∀ records, source (.spot query) = .ok records →
        (run v source (component c .spotPrice) d).value = .ok (.ok records.length) ∧
        ∃ received stored, SpotRecord.seriesPerKwh records c.service.currency = .ok received ∧
          (run v source (component c .spotPrice) d).cache = d.put .spotPrice stored ∧
          (history ∨ ¬ c.cache.keepHistoricSpot → stored = received) ∧
          (c.cache.keepHistoricSpot ∧ ¬ history → ∀ t, stored.get? t =
            (received.get? t).or
              (if t < v.now.hourStart then (d.get .spotPrice).get? t else none))) := by
  constructor
  · intro hout
    rw [component, if_pos rfl, run_spot,
      Config.wantsHistory_of_error (Cache.cutoff_of_not_representable hout)]
  · intro hin
    obtain ⟨history, hhistory⟩ : ∃ history, c.wantsHistory d v.now = .ok history :=
      Config.exists_wantsHistory (Cache.cutoff_eq_ok_iff.2 ⟨rfl, fun _ => hin⟩) d
    refine ⟨history, c.spotQuery history, (Config.wantsHistory_eq_ok_iff.1 hhistory).2, rfl, ?_, ?_,
      ?_⟩
    · rw [component, if_pos rfl, run_spot, hhistory]
      dsimp only
      cases source (.spot (c.spotQuery history)) with
      | error f => exact ⟨[], rfl⟩
      | ok records =>
        dsimp only
        rw [SpotRecord.seriesPerKwh_eq]
        exact ⟨[_], rfl⟩
    · intro f hf
      exact refused_of_fault hhistory hf
    · intro records hrecords
      obtain ⟨hvalue, received, hreceived, hcache⟩ := run_spotPrice_of_records hhistory hrecords
      refine ⟨hvalue, received, _, hreceived, hcache, ?_, ?_⟩
      · intro h
        unfold spotSeries
        rw [if_neg]
        rcases h with h | h <;> simp [h]
      · rintro ⟨hkeep, hnot⟩ t
        unfold spotSeries
        rw [if_pos (by simp [hkeep, hnot]), Series.get?_withPast]

/-- A valid configuration may keep a window of past hours that reaches back beyond the first
instant. Then a download asks for nothing, in the year 2023, and leaves out the prices that there
are. -/
theorem spot_download_deepHistory :
    ({ cache := { historicHours := 4294967295, keepHistoricSpot := true } } : Config).validate =
      .ok () ∧
    run { now := .ofSeconds 1675512000 }
        (.answering (.ok [{ hour := .ofSeconds 1675512000, dkk := some .one }]) (.ok []))
        (component { cache := { historicHours := 4294967295, keepHistoricSpot := true } }
          .spotPrice) .empty =
      ⟨[], .empty, .error .time⟩ :=
  ⟨by rfl, by rfl⟩

end Download

end HourlyPrices
