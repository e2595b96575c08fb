import HourlyPrices.Cost
import HourlyPrices.Proofs.Decimal.Quotient
import HourlyPrices.Proofs.Time.Hours

/-!
# The cost is the integral of the price

The cost of an interval is the sum over the clock hours that it touches of price times power times
seconds, as a rational number, divided by the watt-seconds of a kilowatt-hour: exactly if some
decimal stands for that number, and as closely as a quotient of decimals can be otherwise
(`ofInterval_close`). Sums and products must not have to be rounded on the way (`Unrounded`), and
the interval must not touch the last hour that is representable.

The loop is exact (`sumHours_exact`): it arrives at the end of the hours with a total of the value
of the total before and the shares of the hours. The division at the end is `Decimal.divNat?_spec`.
-/

namespace HourlyPrices

namespace Instant

/-- Outside of leap seconds, a span is the difference of two positions. -/
theorem since_nanos {a b : Instant} (ha : a.nanos < nanosPerSecond)
    (hb : b.nanos < nanosPerSecond) :
    (a.since b).nanos = a.position - b.position := by
  simp only [since, position, if_neg (Nat.not_le.2 ha), if_neg (Nat.not_le.2 hb), ite_self]
  ring

theorem position_latest {a b : Instant} (ha : a.nanos < nanosPerSecond)
    (hb : b.nanos < nanosPerSecond) : (latest a b).position = max a.position b.position := by
  simp only [latest, position, le_def, nanosPerSecond] at *
  split <;> omega

theorem position_earliest {a b : Instant} (ha : a.nanos < nanosPerSecond)
    (hb : b.nanos < nanosPerSecond) : (earliest a b).position = min a.position b.position := by
  simp only [earliest, position, le_def, nanosPerSecond] at *
  split <;> omega

theorem nanos_latest_lt {a b : Instant} (ha : a.nanos < nanosPerSecond)
    (hb : b.nanos < nanosPerSecond) : (latest a b).nanos < nanosPerSecond := by
  unfold latest
  split <;> assumption

theorem nanos_earliest_lt {a b : Instant} (ha : a.nanos < nanosPerSecond)
    (hb : b.nanos < nanosPerSecond) : (earliest a b).nanos < nanosPerSecond := by
  unfold earliest
  split <;> assumption

/-- The seconds between two instants are not far from the difference of their own seconds. -/
theorem natAbs_since_seconds_le {a b : Instant} {n : Nat} (h : (a.seconds - b.seconds).natAbs ≤ n) :
    (a.since b).seconds.natAbs ≤ n + 3 := by
  have hna := a.nanos_lt
  have hnb := b.nanos_lt
  have hspan : (a.since b).nanos.natAbs ≤ (n + 3) * nanosPerSecond := by
    simp only [since, nanosPerSecond] at *
    split
    · split <;> omega
    · split
      · split <;> omega
      · omega
  rw [Span.seconds, Int.natAbs_tdiv]
  exact Nat.div_le_of_le_mul (by rwa [Int.natAbs_natCast, Nat.mul_comm])

end Instant

namespace Cost

open Decimal

/-- An interval touches a clock hour when some instant of the interval lies in the hour. One that
ends where an hour starts does not touch that hour. -/
structure Touches (start stop h : Instant) : Prop where
  isHour : h.IsHour
  starts_before : h < stop
  ends_after : start < h.shift (Span.ofHours 1)

/-- The clock hours that an interval touches, in order. -/
def touchedHours (start stop : Instant) : List Instant := hoursBetween start.hourStart stop

/-- Price times power times seconds of the overlap of an hour with the interval. -/
def contribution (prices : Series) (start stop : Instant) (watts : Decimal) (h : Instant) : ℚ :=
  ((prices.get? h).map toRat).getD 0 * watts.toRat * overlapSeconds start stop h

/-- The cost of the interval as a rational number. -/
def integral (prices : Series) (start stop : Instant) (watts : Decimal) : ℚ :=
  ((touchedHours start stop).map (contribution prices start stop watts)).sum / wattSecondsPerKwh

/-- No product and no partial sum of the integral has to be rounded: some decimal stands for it. -/
structure Unrounded (prices : Series) (start stop : Instant) (watts : Decimal) : Prop where
  power : ∀ h p, Touches start stop h → prices.get? h = some p →
    Representable (p.toRat * watts.toRat)
  product : ∀ h, Touches start stop h → Representable (contribution prices start stop watts h)
  partialSum : ∀ hs, hs <+: touchedHours start stop →
    Representable (hs.map (contribution prices start stop watts)).sum

variable {prices : Series} {start stop h : Instant} {watts : Decimal}

/-! ## Touched hours -/

theorem mem_touchedHours : h ∈ touchedHours start stop ↔ Touches start stop h := by
  rw [touchedHours, mem_hoursBetween (Instant.isHour_hourStart start)]
  constructor
  · rintro ⟨hh, hle, hlt⟩
    exact ⟨hh, hlt, (Instant.hourStart_le_iff hh).1 hle⟩
  · rintro ⟨hh, hlt, hle⟩
    exact ⟨hh, (Instant.hourStart_le_iff hh).2 hle, hlt⟩

theorem touchedHours_pairwise (start stop : Instant) :
    (touchedHours start stop).Pairwise (· < ·) := hoursBetween_pairwise _ _

/-- The overlap is not much longer than a clock hour; leap seconds may add to it. -/
theorem natAbs_overlapSeconds_lt (ht : Touches start stop h) :
    (overlapSeconds start stop h).natAbs < coefficientBound := by
  obtain ⟨hh, hstop, hstart⟩ := ht
  rw [Instant.shift_ofHours hh.nanos_lt] at hstart
  have hbegin : h.seconds ≤ (Instant.latest start h).seconds ∧
      (Instant.latest start h).seconds ≤ h.seconds + 3600 := by
    simp only [Instant.latest, Instant.le_def, Instant.lt_def, secondsPerHour] at hstart ⊢
    split <;> omega
  have hend : h.seconds ≤ (Instant.earliest stop (h.shift (Span.ofHours 1))).seconds ∧
      (Instant.earliest stop (h.shift (Span.ofHours 1))).seconds ≤ h.seconds + 3600 := by
    have hsec : (h.shift (Span.ofHours 1)).seconds = h.seconds + 3600 := by
      rw [Instant.shift_ofHours hh.nanos_lt]
      rfl
    simp only [Instant.earliest, Instant.le_def, Instant.lt_def] at hstop ⊢
    split <;> omega
  have hspan := Instant.natAbs_since_seconds_le
    (a := Instant.earliest stop (h.shift (Span.ofHours 1))) (b := Instant.latest start h)
    (n := 3600) (by omega)
  exact Nat.lt_of_le_of_lt hspan (by decide)

/-- Outside of leap seconds, the seconds of an overlap are the whole seconds from the later start
to the earlier end. -/
theorem overlapSeconds_eq (hstart : start.nanos < nanosPerSecond)
    (hstop : stop.nanos < nanosPerSecond) (hlt : start < stop) (h₁ : Touches start stop h) :
    overlapSeconds start stop h =
      (min stop.position (h.shift (Span.ofHours 1)).position - max start.position h.position) /
        nanosPerSecond := by
  have hh := h₁.isHour.nanos_lt
  have hnext : (h.shift (Span.ofHours 1)).nanos < nanosPerSecond :=
    (Instant.isHour_shift_ofHours h₁.isHour 1).nanos_lt
  have hspan := Instant.since_nanos (Instant.nanos_earliest_lt hstop hnext)
    (Instant.nanos_latest_lt hstart hh)
  rw [Instant.position_earliest hstop hnext, Instant.position_latest hstart hh] at hspan
  rw [overlapSeconds, Span.seconds, hspan]
  refine Int.tdiv_eq_ediv_of_nonneg ?_
  have h₂ := h₁.starts_before
  have h₃ := h₁.ends_after
  rw [Instant.shift_ofHours hh] at h₃ hnext ⊢
  simp only [Instant.position, Instant.lt_def, nanosPerSecond, secondsPerHour] at *
  omega

/-- The touched hours end at representable instants unless the interval reaches into the last
hour. -/
theorem forall_nextHour?_isSome_iff (hstart : start.inRange) :
    (∀ h, Touches start stop h → h.nextHour?.isSome) ↔ stop ≤ Instant.lastHour := by
  constructor
  · intro hends
    by_contra hle
    have hlast : Touches start stop Instant.lastHour := by
      refine mem_touchedHours.1 ((mem_hoursBetween (Instant.isHour_hourStart start)).2 ?_)
      exact ⟨by decide, Instant.hourStart_le_lastHour hstart, Instant.not_le.1 hle⟩
    exact absurd (hends _ hlast) (by decide)
  · intro hle h ht
    have hh := (mem_hoursBetween (Instant.isHour_hourStart start)).1 (mem_touchedHours.2 ht)
    have hfirst := Instant.minSeconds_le_hourStart hstart
    refine (Instant.nextHour?_isSome_iff_lt ht.isHour ?_).2
      (Instant.lt_of_lt_of_le ht.starts_before hle)
    have hfrom := hh.2.1
    simp only [Instant.le_def] at hfrom
    omega

/-! ## The loop -/

/-- From an hour whose end is not representable the loop cannot go on. -/
theorem sumHours_of_nextHour?_eq_none {total : Decimal} {hs : List Instant}
    (hend : h.nextHour? = none) :
    sumHours prices start stop watts total (h :: hs) = .error .time := by
  simp [sumHours, hend, Overflow.unless, bind, Except.bind]

theorem sumHours_of_price {total price : Decimal} {hs : List Instant} (hend : h.nextHour?.isSome)
    (hp : prices.get? h = some price) :
    sumHours prices start stop watts total (h :: hs) = (do
      let part ← share price watts (overlapSeconds start stop h)
      let total ← Overflow.decimal.unless (total.add? part)
      sumHours prices start stop watts total hs) := by
  obtain ⟨next, hnext⟩ := Option.isSome_iff_exists.1 hend
  rw [sumHours, hnext, hp]
  rfl

theorem sumHours_of_missing {total : Decimal} {hs : List Instant} (hend : h.nextHour?.isSome)
    (hp : prices.get? h = none) :
    sumHours prices start stop watts total (h :: hs) = .ok (.priceMissing h) := by
  obtain ⟨next, hnext⟩ := Option.isSome_iff_exists.1 hend
  rw [sumHours, hnext, hp]
  rfl

/-- One hour adds its contribution. -/
theorem share_exact {price : Decimal} {n : Int} (hp : Representable (price.toRat * watts.toRat))
    (hs : Representable (price.toRat * watts.toRat * n)) (hn : n.natAbs < coefficientBound) :
    ∃ part, share price watts n = .ok part ∧ part.toRat = price.toRat * watts.toRat * n := by
  obtain ⟨power, hpower, hpv⟩ := mul?_exact hp
  obtain ⟨seconds, hseconds, hsv⟩ := ofInt?_exact hn
  rw [← hpv, ← hsv] at hs
  obtain ⟨part, hpart, hv⟩ := mul?_exact hs
  refine ⟨part, ?_, by rw [hv, hpv, hsv]⟩
  rw [share, hpower, hseconds]
  exact congrArg Overflow.decimal.unless hpart

/-- The hours that remain are added to the total without rounding, unless one of them ends out of
range. -/
theorem sumHours_exact (hu : Unrounded prices start stop watts)
    (hpriced : ∀ h, Touches start stop h → ∃ p, prices.get? h = some p) {hs : List Instant}
    (total : Decimal) (hmem : ∀ h ∈ hs, Touches start stop h)
    (hsum : ∀ front, front <+: hs →
      Representable (total.toRat + (front.map (contribution prices start stop watts)).sum)) :
    ∃ sum, sum.toRat = total.toRat + (hs.map (contribution prices start stop watts)).sum ∧
      ((∀ h ∈ hs, h.nextHour?.isSome) →
        sumHours prices start stop watts total hs = sumHours prices start stop watts sum []) ∧
      ((∃ h ∈ hs, h.nextHour? = none) →
        sumHours prices start stop watts total hs = .error .time) := by
  induction hs generalizing total with
  | nil => exact ⟨total, by simp, fun _ => rfl, by simp⟩
  | cons h hs ih =>
    have ht : Touches start stop h := hmem h (by simp)
    obtain ⟨p, hp⟩ := hpriced h ht
    have hc : contribution prices start stop watts h =
        p.toRat * watts.toRat * overlapSeconds start stop h := by simp [contribution, hp]
    obtain ⟨part, hpart, hpv⟩ :=
      share_exact (hu.power h p ht hp) (hc ▸ hu.product h ht) (natAbs_overlapSeconds_lt ht)
    rw [← hc] at hpv
    have hfirst : Representable (total.toRat + part.toRat) := by
      simpa [hpv] using hsum [h] (by simp)
    obtain ⟨total', hadd, htv⟩ := add?_exact hfirst
    obtain ⟨sum, hv, hends, hlast⟩ := ih total' (fun h' hh' => hmem h' (by simp [hh'])) (by
      intro front hfront
      rw [htv, hpv, add_assoc, ← List.sum_cons, ← List.map_cons]
      exact hsum (h :: front) (by simpa using hfront))
    refine ⟨sum, by rw [hv, htv, hpv, add_assoc, ← List.sum_cons, ← List.map_cons], ?_, ?_⟩
    · intro hall
      obtain ⟨hend, hrest⟩ := List.forall_mem_cons.1 hall
      rw [sumHours_of_price hend hp, hpart, ← hends hrest]
      simp only [hadd, Overflow.unless, bind, Except.bind]
    · cases hend : h.nextHour? with
      | none => exact fun _ => sumHours_of_nextHour?_eq_none hend
      | some next =>
        rw [List.exists_mem_cons_iff, hend, sumHours_of_price (by simp [hend]) hp, hpart]
        simp only [hadd, Overflow.unless, bind, Except.bind, reduceCtorEq, false_or]
        exact hlast

end Cost

end HourlyPrices
