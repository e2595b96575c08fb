import HourlyPrices.Cache
import HourlyPrices.Proofs.Time.Hours

/-!
# What is kept of the past

Dropping past hours leaves, of each series, the hours from `Retention.keptFrom` on
(`Cache.get?_cleanup`), and it fails only where that instant is out of range
(`Cache.exists_cleanup_iff_representable`). What is kept shrinks as time goes on, so it does not
matter how often hours have been dropped before (`Cache.cleanup_cleanup`), nor whether they are
dropped again with a clock that has gone back (`Cache.cleanup_of_cleanup`).
-/

namespace HourlyPrices

variable {r : Retention} {k : Component} {now t u : Instant} {d e : Cache}

/-- Of the prices from one instant on, those from another on. -/
theorem Series.filterHours_from_from (s : Series) (t u : Instant) :
    (s.filterHours (t ≤ ·)).filterHours (u ≤ ·) = s.filterHours (Instant.latest t u ≤ ·) := by
  refine ext_get? fun v => ?_
  simp only [get?_filterHours, decide_eq_true_eq, Instant.latest_le_iff]
  by_cases hu : u ≤ v <;> simp [hu]

namespace Retention

/-- The first hour of a component that is kept: the current one, or, of spot prices with a window of
past hours, the one as many hours before as the window is deep. -/
def keptFrom (r : Retention) (k : Component) (now : Instant) : Instant :=
  if k = .spotPrice ∧ r.keepHistoricSpot then
    .ofSeconds (now.hourStart.seconds - r.historicHours * secondsPerHour)
  else now.hourStart

/-- The window of past hours, if it is kept, does not reach back beyond the first instant. -/
def Representable (r : Retention) (now : Instant) : Prop :=
  r.keepHistoricSpot → (r.keptFrom .spotPrice now).inRange

theorem keptFrom_of_ne (h : k ≠ .spotPrice) (r : Retention) (now : Instant) :
    r.keptFrom k now = now.hourStart := if_neg fun hk => h hk.1

theorem keptFrom_le_hourStart (r : Retention) (k : Component) (now : Instant) :
    r.keptFrom k now ≤ now.hourStart := by
  unfold keptFrom
  split
  · simp only [Instant.hourStart, Instant.ofSeconds, Instant.le_def, secondsPerHour]
    omega
  · exact Instant.le_refl _

theorem keptFrom_mono (r : Retention) (k : Component) (h : t ≤ u) :
    r.keptFrom k t ≤ r.keptFrom k u := by
  have hhour := Instant.hourStart_mono h
  unfold keptFrom
  split
  · simp only [Instant.hourStart, Instant.ofSeconds, Instant.le_def] at hhour ⊢
    omega
  · exact hhour

end Retention

namespace Cache

theorem historicStart_eq_ok_iff : historicStart r now = .ok t ↔
    t = .ofSeconds (now.hourStart.seconds - r.historicHours * secondsPerHour) ∧ t.inRange := by
  have hshift : now.hourStart.shift (Span.ofHours (-(r.historicHours : Int))) =
      .ofSeconds (now.hourStart.seconds - r.historicHours * secondsPerHour) := by
    rw [Instant.shift_ofHours (Instant.isHour_hourStart now).nanos_lt, Instant.ext_iff]
    refine ⟨?_, (Instant.isHour_hourStart now).1⟩
    simp only [Instant.ofSeconds, secondsPerHour]
    omega
  simp only [historicStart, Instant.add?, hshift]
  split
  · rename_i hin
    constructor
    · intro h
      cases h
      exact ⟨rfl, hin⟩
    · rintro ⟨rfl, -⟩
      rfl
  · rename_i hout
    refine iff_of_false (fun h => by cases h) ?_
    rintro ⟨rfl, hin⟩
    exact hout hin

theorem cutoff_eq_ok_iff : cutoff r k now = .ok t ↔
    t = r.keptFrom k now ∧ (k = .spotPrice → r.Representable now) := by
  unfold cutoff Retention.Representable Retention.keptFrom
  by_cases h : k = .spotPrice ∧ r.keepHistoricSpot
  · rw [if_pos h, if_pos h, historicStart_eq_ok_iff]
    constructor
    · rintro ⟨rfl, hin⟩
      exact ⟨rfl, fun _ _ => by simpa [h.2] using hin⟩
    · rintro ⟨rfl, hin⟩
      exact ⟨rfl, by simpa [h.2] using hin h.1 h.2⟩
  · rw [if_neg h, if_neg h, Except.ok.injEq, eq_comm]
    exact ⟨fun ht => ⟨ht, fun hk hkeep => absurd ⟨hk, hkeep⟩ h⟩, And.left⟩

theorem not_representable_of_cutoff {o : Overflow} (h : cutoff r .spotPrice now = .error o) :
    ¬ r.Representable now := by
  intro hin
  rw [cutoff_eq_ok_iff.2 ⟨rfl, fun _ => hin⟩] at h
  cases h

theorem cutoff_of_not_representable (h : ¬ r.Representable now) :
    cutoff r .spotPrice now = .error .time := by
  cases hcut : cutoff r .spotPrice now with
  | ok t => exact absurd ((cutoff_eq_ok_iff.1 hcut).2 rfl) h
  | error o =>
    have hkeep : r.keepHistoricSpot := (Classical.not_imp.1 h).1
    rw [cutoff, if_pos ⟨rfl, hkeep⟩, historicStart] at hcut
    cases hadd : now.hourStart.add? (Span.ofHours (-(r.historicHours : Int))) with
    | some t => simp [hadd, Overflow.unless] at hcut
    | none =>
      rw [hadd] at hcut
      exact hcut.symm

theorem cleanup_eq_ok_iff : d.cleanup r now = .ok e ↔
    r.Representable now ∧ ∀ k, e.get k = (d.get k).filterHours (r.keptFrom k now ≤ ·) := by
  unfold cleanup
  cases hcut : cutoff r .spotPrice now with
  | error o =>
    have hout := not_representable_of_cutoff hcut
    exact iff_of_false (fun h => by cases h) fun h => hout h.1
  | ok t =>
    obtain ⟨rfl, hin⟩ := cutoff_eq_ok_iff.1 hcut
    have hget : ∀ k, (d.map fun k s => s.dropBefore
        (if k = .spotPrice then r.keptFrom .spotPrice now else now.hourStart)).get k =
          (d.get k).filterHours (r.keptFrom k now ≤ ·) := by
      intro k
      rw [get_map, Series.dropBefore_eq]
      by_cases hk : k = .spotPrice
      · rw [if_pos hk, hk]
      · rw [if_neg hk, Retention.keptFrom_of_ne hk]
    constructor
    · intro h
      cases h
      exact ⟨hin rfl, hget⟩
    · rintro ⟨-, he⟩
      exact congrArg Except.ok (ext_get fun k => (hget k).trans (he k).symm)

theorem exists_cleanup_iff_representable (d : Cache) :
    (∃ e, d.cleanup r now = .ok e) ↔ r.Representable now := by
  constructor
  · rintro ⟨e, he⟩
    exact (cleanup_eq_ok_iff.1 he).1
  · intro h
    exact ⟨d.map fun k s => s.filterHours (r.keptFrom k now ≤ ·),
      cleanup_eq_ok_iff.2 ⟨h, fun k => get_map ..⟩⟩

/-- Exactly the entries from the first hour that is kept on stay, with their prices. -/
theorem get?_cleanup (h : d.cleanup r now = .ok e) (k : Component) (u : Instant) (p : Decimal) :
    (e.get k).get? u = some p ↔ (d.get k).get? u = some p ∧ r.keptFrom k now ≤ u := by
  rw [(cleanup_eq_ok_iff.1 h).2 k, Series.get?_filterHours]
  by_cases hle : r.keptFrom k now ≤ u <;> simp [hle]

/-- Hours that have been dropped before make no difference later. -/
theorem cleanup_cleanup (h : d.cleanup r t = .ok e) (htu : t ≤ u) :
    e.cleanup r u = d.cleanup r u := by
  by_cases hin : r.Representable u
  · obtain ⟨e', he'⟩ := (exists_cleanup_iff_representable d).2 hin
    rw [he', cleanup_eq_ok_iff]
    refine ⟨hin, fun k => ?_⟩
    rw [(cleanup_eq_ok_iff.1 he').2 k, (cleanup_eq_ok_iff.1 h).2 k, Series.filterHours_from_from,
      Instant.latest_of_le (r.keptFrom_mono k htu)]
  · unfold cleanup
    cases hcut : cutoff r .spotPrice u with
    | error o => rfl
    | ok a => exact absurd ((cutoff_eq_ok_iff.1 hcut).2 rfl) hin

/-- With the same reading of the clock, or an earlier one, nothing more is dropped. -/
theorem cleanup_of_cleanup (h : d.cleanup r u = .ok e) (htu : t ≤ u) (hin : r.Representable t) :
    e.cleanup r t = .ok e := by
  refine cleanup_eq_ok_iff.2 ⟨hin, fun k => ?_⟩
  rw [(cleanup_eq_ok_iff.1 h).2 k, Series.filterHours_from_from, Instant.latest,
    if_pos (r.keptFrom_mono k htu)]

end Cache

end HourlyPrices
