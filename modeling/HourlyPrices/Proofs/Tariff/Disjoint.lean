import HourlyPrices.Proofs.Tariff.Coverage
import HourlyPrices.Proofs.Tariff.Ended
import HourlyPrices.Proofs.Tariff.Expansion

/-!
# Records that do not overlap

Records that are never valid at the same local time do not compete for an hour, but for one case. A
record that ends at a time which the clock leaves out is valid for up to an hour longer, and so it
may run over the beginning of the record after it (`TariffRecord.Overruns`). For other hours the
order of the records does not count (`expandBetween_perm`).
-/

namespace HourlyPrices

namespace TariffRecord

/-- A local time lies within the validity of a record, as it is published. -/
def ValidAt (r : TariffRecord) (l : LocalTime) : Prop :=
  r.validFrom.asUtc ≤ l.asUtc ∧ ∀ stop, r.validTo = some stop → l.asUtc < stop.asUtc

/-- Two records are never valid at the same local time. -/
def Disjoint (r s : TariffRecord) : Prop := ∀ l, ¬ (r.ValidAt l ∧ s.ValidAt l)

/-- A record ends before another begins on the wall, but its end is moved forward into the hour with
which the other begins. -/
def Overruns (zone : Zone) (r s : TariffRecord) (h : Instant) : Prop :=
  ∃ l, r.validTo = some l ∧ zone.MovesInto l h ∧ l.asUtc ≤ s.validFrom.asUtc ∧
    s.startIn zone = h

variable {zone : Zone} {r s : TariffRecord} {h : Instant} {p q : Decimal}

theorem Disjoint.symm (hd : r.Disjoint s) : s.Disjoint r := fun l hl => hd l hl.symm

/-- A record that has ended on the wall when another begins is never valid together with it. -/
theorem disjoint_of_end {l : LocalTime} (hl : r.validTo = some l)
    (hle : l.asUtc ≤ s.validFrom.asUtc) : r.Disjoint s := fun _ ⟨hr, hs⟩ =>
  Instant.lt_irrefl _ (Instant.lt_of_lt_of_le (hr.2 l hl) (Instant.le_trans hle hs.1))

/-- Of two records that are never valid at the same local time, one has ended on the wall when the
later one begins. -/
theorem Disjoint.exists_end (hd : r.Disjoint s) (hle : r.validFrom.asUtc ≤ s.validFrom.asUtc) :
    ∃ a ∈ [r, s], ∃ l, a.validTo = some l ∧ l.asUtc ≤ s.validFrom.asUtc := by
  by_contra hnone
  simp only [List.mem_cons, List.not_mem_nil, or_false, exists_eq_or_imp, exists_eq_left, not_or,
    not_exists, not_and, Instant.not_le] at hnone
  exact hd s.validFrom ⟨⟨hle, hnone.1⟩, Instant.le_refl _, hnone.2⟩

/-- Records that are never valid at the same local time publish prices for the same hour only where
one of them runs over the beginning of one. -/
theorem Disjoint.overruns_of_publishes (hz : zone.table = .centralEurope) (hd : r.Disjoint s)
    (hh : h.IsHour) (hr : r.Publishes zone h p) (hs : s.Publishes zone h q) :
    ∃ a ∈ [r, s], ∃ b ∈ [r, s], a.Overruns zone b h := by
  wlog hle : r.validFrom.asUtc ≤ s.validFrom.asUtc generalizing r s p q
  · obtain ⟨a, ha, b, hb, hover⟩ := this hd.symm hs hr (Instant.le_of_lt (Instant.not_le.1 hle))
    exact ⟨a, by simpa [or_comm] using ha, b, by simpa [or_comm] using hb, hover⟩
  obtain ⟨a, ha, l, hl, hlm⟩ := hd.exists_end hle
  have hvalid : h < zone.instantOf l := by
    obtain rfl | rfl : a = r ∨ a = s := by simpa using ha
    · exact hr.not_ended l hl
    · exact hs.not_ended l hl
  rcases Zone.instantOf_le_of_le hz hlm hh hs.started with hpast | ⟨hmoves, hbegins⟩
  · exact absurd hvalid (Instant.not_lt.2 hpast)
  · exact ⟨a, ha, s, by simp, l, hl, hmoves, hlm, hbegins⟩

end TariffRecord

variable {zone : Zone} {records records' : List TariffRecord} {start stop h : Instant} {p : Decimal}

/-- When no two records of a list publish prices for an hour, its price is the one that any record
publishes. -/
theorem get?_hourlyBetween_of_pairwise (hw : h.IsHour ∧ start.hourStart ≤ h ∧ h < stop)
    (hpair : records.Pairwise fun r s => ∀ p q, ¬ (r.Publishes zone h p ∧ s.Publishes zone h q)) :
    (hourlyBetween zone records start stop).get? h = some p ↔
      ∃ r ∈ records, r.Publishes zone h p := by
  induction records using List.reverseRecOn with
  | nil => simp [hourlyBetween, Series.ofList]
  | append_singleton records r ih =>
    rw [List.pairwise_append] at hpair
    obtain ⟨hrest, -, hlast⟩ := hpair
    rw [get?_hourlyBetween_concat_eq_some_iff hw, ih hrest]
    constructor
    · rintro (hr | ⟨-, r', hr', hp⟩)
      · exact ⟨r, by simp, hr⟩
      · exact ⟨r', by simp [hr'], hp⟩
    · rintro ⟨r', hr', hp⟩
      rcases List.mem_append.1 hr' with hr' | hr'
      · exact .inr ⟨fun q hq => hlast r' hr' r (by simp) p q ⟨hp, hq⟩, r', hr', hp⟩
      · exact .inl (List.mem_singleton.1 hr' ▸ hp)

/-- An hour has a price whatever the order of the records. -/
theorem isSome_get?_hourlyBetween_perm (hperm : records.Perm records') :
    ((hourlyBetween zone records start stop).get? h).isSome =
      ((hourlyBetween zone records' start stop).get? h).isSome := by
  rw [Bool.eq_iff_iff]
  by_cases hw : h.IsHour ∧ start.hourStart ≤ h ∧ h < stop
  · simp only [isSome_get?_hourlyBetween_iff hw, hperm.mem_iff]
  · have hnone : ∀ rs : List TariffRecord,
        ¬ ((hourlyBetween zone rs start stop).get? h).isSome := fun rs hp =>
      hw (inWindow_of_get?_hourlyBetween (Option.get_mem hp))
    exact iff_of_false (hnone _) (hnone _)

/-- When no two records of a list publish prices for an hour, their order does not count. -/
theorem get?_hourlyBetween_perm (hperm : records.Perm records')
    (hpair : h.IsHour → records.Pairwise fun r s =>
      ∀ p q, ¬ (r.Publishes zone h p ∧ s.Publishes zone h q)) :
    (hourlyBetween zone records start stop).get? h =
      (hourlyBetween zone records' start stop).get? h := by
  refine Option.ext fun p => ?_
  by_cases hw : h.IsHour ∧ start.hourStart ≤ h ∧ h < stop
  · have hpair' := (hperm.pairwise_iff fun {r s} hrs p q hsr => hrs q p hsr.symm).1 (hpair hw.1)
    rw [get?_hourlyBetween_of_pairwise hw (hpair hw.1), get?_hourlyBetween_of_pairwise hw hpair']
    simp only [hperm.mem_iff]
  · exact iff_of_false (fun hp => hw (inWindow_of_get?_hourlyBetween hp))
      fun hp => hw (inWindow_of_get?_hourlyBetween hp)

/-- The order of records that are never valid at the same local time decides neither which hours
have a price, nor the price of an hour, except where a record runs over the beginning of one. That
happens only with hours at which the clock is put forward. -/
theorem hourlyBetween_perm (hz : zone.table = .centralEurope) (hperm : records.Perm records')
    (hdisjoint : records.Pairwise TariffRecord.Disjoint) (start stop : Instant) :
    (∀ h, ((hourlyBetween zone records start stop).get? h).isSome =
      ((hourlyBetween zone records' start stop).get? h).isSome) ∧
    (∀ h, (∀ r ∈ records, ∀ s ∈ records, ¬ r.Overruns zone s h) ∨
        zone.table.offsetAt h.seconds ≤ zone.table.offsetAt (h.seconds - 1) →
      (hourlyBetween zone records start stop).get? h =
        (hourlyBetween zone records' start stop).get? h) ∧
    ((∀ h, ∀ r ∈ records, ∀ s ∈ records, ¬ r.Overruns zone s h) →
      hourlyBetween zone records start stop = hourlyBetween zone records' start stop) := by
  have hget : ∀ h, (∀ r ∈ records, ∀ s ∈ records, ¬ r.Overruns zone s h) →
      (hourlyBetween zone records start stop).get? h =
        (hourlyBetween zone records' start stop).get? h := by
    intro h hnone
    refine get?_hourlyBetween_perm hperm fun hh => hdisjoint.imp_of_mem ?_
    rintro r s hr hs hd p q ⟨hp, hq⟩
    have hmem : ∀ x ∈ [r, s], x ∈ records := by simp [hr, hs]
    obtain ⟨a, ha, b, hb, hover⟩ := hd.overruns_of_publishes hz hh hp hq
    exact hnone a (hmem a ha) b (hmem b hb) hover
  refine ⟨fun h => isSome_get?_hourlyBetween_perm hperm, fun h hcase => hget h ?_,
    fun hnone => Series.ext_get? fun h => hget h (hnone h)⟩
  rcases hcase with hnone | hoffset
  · exact hnone
  · rintro r - s - ⟨l, -, hmoves, -⟩
    exact absurd (hmoves.offset_lt hz) (Int.not_lt.2 hoffset)

/-- For records that are never valid at the same local time, the series of a window has prices at
the same hours whatever their order, or there is none whatever their order. Prices depend on the
order only where a record runs over the beginning of one, which happens only with hours at which the
clock is put forward. In the years from 1995 to 2036 there is a series. -/
theorem expandBetween_perm (hz : zone.table = .centralEurope) (hperm : records.Perm records')
    (hdisjoint : records.Pairwise TariffRecord.Disjoint) (start stop : Instant) :
    ((∃ s, expandBetween zone records start stop = .ok s) ↔
      ∃ s', expandBetween zone records' start stop = .ok s') ∧
    (∀ s s', expandBetween zone records start stop = .ok s →
      expandBetween zone records' start stop = .ok s' →
      (∀ h, (s.get? h).isSome = (s'.get? h).isSome) ∧
      (∀ h, (∀ r ∈ records, ∀ t ∈ records, ¬ r.Overruns zone t h) ∨
          zone.table.offsetAt h.seconds ≤ zone.table.offsetAt (h.seconds - 1) →
        s.get? h = s'.get? h) ∧
      ((∀ h, ∀ r ∈ records, ∀ t ∈ records, ¬ r.Overruns zone t h) → s = s')) ∧
    (Zone.InTables start → stop ≤ Zone.startOf2037 →
      (∀ r ∈ records, r.validFrom.asUtc.inRange) →
        ∃ s, expandBetween zone records start stop = .ok s) := by
  refine ⟨?_, fun s s' hs hs' => ?_, fun hstart hstop hvalid => ?_⟩
  · simp only [exists_expandBetween_iff, hperm.mem_iff]
  · rw [(expandBetween_eq_ok_iff.1 hs).2, (expandBetween_eq_ok_iff.1 hs').2]
    exact hourlyBetween_perm hz hperm hdisjoint start stop
  · have hseconds := hstart.seconds
    rw [Instant.le_def] at hstop
    simp only [Zone.startOf2037, Instant.ofSeconds] at hstop
    refine exists_expandBetween hstart.inRange ?_ ?_ fun r hr => ?_
    · rw [Instant.minSeconds]
      omega
    · rw [Instant.maxSeconds]
      omega
    · exact TariffRecord.startIn_le_lastHour hz (Instant.inRange_iff.1 (hvalid r hr)).2

/-- A record that ends at 02:00, where the clock is put forward to 03:00, and one that begins at
03:00. -/
theorem expandBetween_perm_at_gap :
    ∃ s, expandBetween .cet [.flat { seconds := 1679792400 } { seconds := 1679796000 } .one,
        .flat { seconds := 1679799600 } { seconds := 1679806800 } .zero]
      (.ofSeconds 1679788800) (.ofSeconds 1679806800) = .ok s ∧
    expandBetween .cet [.flat { seconds := 1679799600 } { seconds := 1679806800 } .zero,
        .flat { seconds := 1679792400 } { seconds := 1679796000 } .one]
      (.ofSeconds 1679788800) (.ofSeconds 1679806800) = .ok s := by
  have hdisjoint : List.Pairwise TariffRecord.Disjoint
      [.flat { seconds := 1679792400 } { seconds := 1679796000 } .one,
        .flat { seconds := 1679799600 } { seconds := 1679806800 } .zero] :=
    List.pairwise_pair.2 (TariffRecord.disjoint_of_end rfl (by decide))
  obtain ⟨hiff, hsame, hsome⟩ := expandBetween_perm (rfl : Zone.cet.table = .centralEurope)
    (List.Perm.swap ..) hdisjoint (.ofSeconds 1679788800) (.ofSeconds 1679806800)
  obtain ⟨s, hs⟩ := hsome ⟨by decide, by decide⟩ (by decide) (by decide)
  obtain ⟨s', hs'⟩ := hiff.1 ⟨s, hs⟩
  refine ⟨s, hs, ?_⟩
  rw [(hsame s s' hs hs').2.2 ?_, hs']
  rintro h r hr t - ⟨l, hl, hmoves, -⟩
  refine hmoves.not_isHour ?_
  obtain rfl | rfl : l = { seconds := 1679796000 } ∨ l = { seconds := 1679806800 } := by
    rcases List.mem_pair.1 hr with rfl | rfl
    · exact .inl (Option.some.inj hl).symm
    · exact .inr (Option.some.inj hl).symm
  · decide +kernel
  · decide +kernel

/-- A record that ends at 02:30, which the clock leaves out, and one that begins at 03:00, both give
a price to the hour from 03:00 on. -/
theorem expandBetween_swap_ne_in_gap :
    (TariffRecord.flat { seconds := 1679792400 } { seconds := 1679797800 } .one).Disjoint
      (.flat { seconds := 1679799600 } { seconds := 1679806800 } .zero) ∧
    (expandBetween .cet [.flat { seconds := 1679792400 } { seconds := 1679797800 } .one,
        .flat { seconds := 1679799600 } { seconds := 1679806800 } .zero]
      (.ofSeconds 1679788800) (.ofSeconds 1679806800)).map (·.get? (.ofSeconds 1679792400)) =
        .ok (some .zero) ∧
    (expandBetween .cet [.flat { seconds := 1679799600 } { seconds := 1679806800 } .zero,
        .flat { seconds := 1679792400 } { seconds := 1679797800 } .one]
      (.ofSeconds 1679788800) (.ofSeconds 1679806800)).map (·.get? (.ofSeconds 1679792400)) =
        .ok (some .one) :=
  ⟨TariffRecord.disjoint_of_end rfl (by decide), by decide +kernel, by decide +kernel⟩

end HourlyPrices
