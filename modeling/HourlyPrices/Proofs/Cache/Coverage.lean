import HourlyPrices.Cache
import HourlyPrices.Proofs.Series
import HourlyPrices.Proofs.Time.Hours
import HourlyPrices.Proofs.Zone.CentralEurope
import Mathlib.Data.List.Perm.Subperm

/-!
# Coverage

A component is covered when as many hours are known until the end of tomorrow as there are. Of a
series whose prices stand at clock hours this means that each of these hours has a price
(`Cache.coversTomorrow_iff`).
-/

namespace HourlyPrices

namespace Series

variable {s : Series} {t : Instant}

/-- A series whose prices stand at clock hours. -/
def HourKeyed (s : Series) : Prop := ∀ t p, s.get? t = some p → t.IsHour

theorem hourKeyed_empty : empty.HourKeyed := fun _ _ h => by cases h

/-- Setting prices at clock hours keeps a series at clock hours. -/
theorem HourKeyed.insertAll (hs : s.HourKeyed) {es : List (Instant × Decimal)}
    (hes : ∀ e ∈ es, e.1.IsHour) : (s.insertAll es).HourKeyed := by
  induction es generalizing s with
  | nil => exact hs
  | cons e es ih =>
    obtain ⟨he, hes⟩ := List.forall_mem_cons.1 hes
    refine ih (fun t p hp => ?_) hes
    rw [get?_insert] at hp
    split at hp
    · rename_i ht
      exact ht ▸ he
    · exact hs t p hp

/-- The same price for some hours in a row. -/
def flat (start : Instant) (n : Nat) (p : Decimal) : Series :=
  ofList ((List.range n).map fun i => (start.shift (Span.ofHours i), p))

theorem hourKeyed_flat {start : Instant} (h : start.IsHour) (n : Nat) (p : Decimal) :
    (flat start n p).HourKeyed := by
  refine hourKeyed_empty.insertAll fun e he => ?_
  obtain ⟨i, -, rfl⟩ := List.mem_map.1 he
  exact Instant.isHour_shift_ofHours h i

/-- Of a list that has all the hours that pass a test, as many have a price as there are exactly
when each of them has one. -/
theorem countHours_eq_length_iff {p : Instant → Bool} {hs : List Instant} (hnodup : hs.Nodup)
    (hmem : ∀ h ∈ hs, p h) (hall : ∀ h ∈ s.hours, p h → h ∈ hs) :
    s.countHours p = hs.length ↔ ∀ h ∈ hs, (s.get? h).isSome := by
  rw [countHours, List.countP_eq_length_filter]
  have hfilter : (s.hours.filter p).Nodup := s.nodup_hours.filter _
  have hsub : s.hours.filter p ⊆ hs := by
    intro h hh
    obtain ⟨hs', hp⟩ := List.mem_filter.1 hh
    exact hall h hs' hp
  constructor
  · intro hlen h hh
    have hperm := (List.subperm_of_subset hfilter hsub).perm_of_length_le (Nat.le_of_eq hlen.symm)
    exact mem_hours_iff.1 (List.mem_filter.1 (hperm.mem_iff.2 hh)).1
  · intro hsome
    refine List.Perm.length_eq ((List.perm_ext_iff_of_nodup hfilter hnodup).2 fun h => ?_)
    refine ⟨fun hh => hsub hh, fun hh => ?_⟩
    exact List.mem_filter.2 ⟨mem_hours_iff.2 (hsome h hh), hmem h hh⟩

end Series

/-- There are as many clock hours between two as the span between them has. -/
theorem length_hoursBetween {start stop : Instant} (hstart : start.IsHour) (hstop : stop.IsHour) :
    (hoursBetween start stop).length =
      ((stop.since start).seconds.tdiv secondsPerHour).toNat := by
  have hspan : (stop.since start).seconds = stop.seconds - start.seconds := by
    rw [Instant.since_of_isHour hstop hstart, Span.seconds_ofSeconds]
  obtain ⟨hs, hs'⟩ := hstart
  obtain ⟨ht, ht'⟩ := hstop
  obtain ⟨n, hn⟩ : ∃ n, stop.seconds - start.seconds = n * secondsPerHour :=
    ⟨(stop.seconds - start.seconds) / secondsPerHour, by simp only [secondsPerHour] at *; omega⟩
  rw [hspan, hn, Int.mul_tdiv_cancel _ (by decide)]
  simp only [hoursBetween, List.length_map, List.length_range, hs, ht, secondsPerHour] at hn ⊢
  simp only [Nat.lt_irrefl, if_false]
  omega

namespace Cache

variable {d : Cache} {k : Component} {now : Instant}

theorem isHour_endOfTomorrow (k : Component) (now : Instant) :
    (k.zone.endOfTomorrow now).IsHour := Zone.isHour_midnight rfl _

/-- A component with prices at clock hours is covered when each clock hour from the current one to
the end of tomorrow has a price. -/
theorem coversTomorrow_iff (hkeyed : (d.get k).HourKeyed) :
    d.coversTomorrow k now ↔ ∀ h, h.IsHour → now.hourStart ≤ h → h < k.zone.endOfTomorrow now →
      ((d.get k).get? h).isSome := by
  have hstart := Instant.isHour_hourStart now
  simp only [coversTomorrow, beq_iff_eq]
  rw [← length_hoursBetween hstart (isHour_endOfTomorrow k now),
    Series.countHours_eq_length_iff]
  · simp only [mem_hoursBetween hstart, and_imp]
  · refine (hoursBetween_pairwise ..).imp fun {a b} hab he => ?_
    rw [he] at hab
    exact Instant.lt_irrefl _ hab
  · intro h hh
    obtain ⟨-, hle, hlt⟩ := (mem_hoursBetween hstart).1 hh
    exact decide_eq_true ⟨hle, hlt⟩
  · intro h hh hp
    obtain ⟨p, hp'⟩ := Option.isSome_iff_exists.1 (Series.mem_hours_iff.1 hh)
    obtain ⟨hle, hlt⟩ := of_decide_eq_true hp
    exact (mem_hoursBetween hstart).2 ⟨hkeyed h p hp', hle, hlt⟩

/-- Of a series that has just been put into the cache with prices at clock hours, a component is
covered exactly when each clock hour has a price from the current one up to the instant, the only
one of its kind, at which the clock shows the midnight that ends the next day. -/
theorem coversTomorrow_put_iff (d : Cache) (k : Component) (s : Series) (hs : s.HourKeyed)
    (now : Instant) (hlast : k.zone.dayAt now + 2 ≤ Zone.lastDay) :
    ∃ stop, (∀ t, k.zone.localTime t = .ofDay (k.zone.dayAt now + 2) .midnight ↔ t = stop) ∧
      ((d.put k s).coversTomorrow k now ↔
        ∀ h, h.IsHour → now.hourStart ≤ h → h < stop → (s.get? h).isSome) := by
  have hget : (d.put k s).get k = s := by rw [get_put, if_pos rfl]
  have hstop : k.zone.endOfTomorrow now = k.zone.midnight (k.zone.dayAt now + 2) :=
    congrArg k.zone.midnight (if_pos hlast)
  refine ⟨k.zone.endOfTomorrow now, fun t => ?_, ?_⟩
  · rw [Zone.localTime_eq_midnight_iff rfl, hstop]
  · rw [coversTomorrow_iff (hget.symm ▸ hs), hget]

/-- On the day before one of 25 hours, prices for the 35 hours from noon on cover the component. -/
theorem coversTomorrow_put_iff_longDay : ∃ stop,
    (∀ t, marketZone.localTime t = .ofDay (marketZone.dayAt (.ofSeconds 1698494400) + 2) .midnight ↔
      t = stop) ∧
    (coversTomorrow
        (empty.put .systemTariff (.flat (.ofSeconds 1698494400) 35 { num := 1, scale := 0 }))
        .systemTariff (.ofSeconds 1698494400) ↔
      ∀ h, h.IsHour → (Instant.ofSeconds 1698494400).hourStart ≤ h → h < stop →
        ((Series.flat (.ofSeconds 1698494400) 35 { num := 1, scale := 0 }).get? h).isSome) :=
  coversTomorrow_put_iff empty .systemTariff _ (Series.hourKeyed_flat (by decide) 35 _)
    (.ofSeconds 1698494400) (by decide +kernel)

end Cache

end HourlyPrices
