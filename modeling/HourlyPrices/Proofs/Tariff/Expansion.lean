import HourlyPrices.Proofs.Tariff.LastRecord
import HourlyPrices.Proofs.Zone.Gap
import HourlyPrices.Proofs.Zone.NextTime

/-!
# Going through the hours of tariffs

The loop over the hours of a window ends with a series or with an overflow. It gets past an hour
when the next one is representable, and the date of the hour by the clock of the zone
(`Zone.GetsPast`); it ends with a series exactly when it gets past all hours at which it looks, and
that series is `hourlyBetween` (`expandBetween_eq_ok_iff`). So only windows that reach into the last
representable hour, or into the hours whose local time is not representable, have none
(`get?_expandBetween_eq_some_iff`).
-/

namespace HourlyPrices

/-- When each step of a fold succeeds under a condition on the item alone, the fold succeeds when
all items meet it. -/
theorem foldlM_eq_ok_iff {α β ε : Type} {f : β → α → Except ε β} {g : β → α → β} {P : α → Prop}
    (hf : ∀ b a b', f b a = .ok b' ↔ P a ∧ b' = g b a) (as : List α) (b b' : β) :
    as.foldlM f b = .ok b' ↔ (∀ a ∈ as, P a) ∧ b' = as.foldl g b := by
  induction as generalizing b with
  | nil => simp [pure, Except.pure, eq_comm]
  | cons a as ih =>
    rw [List.foldlM_cons, List.foldl_cons, List.forall_mem_cons]
    cases hfa : f b a with
    | error e =>
      have hP : ¬ P a := fun hP => by simpa [hfa] using (hf b a (g b a)).2 ⟨hP, rfl⟩
      simp [hP, bind, Except.bind]
    | ok c =>
      obtain ⟨hP, rfl⟩ := (hf b a c).1 hfa
      simp only [bind, Except.bind, ih, hP, true_and]

theorem Zone.isSome_localTime?_iff {zone : Zone} {t : Instant} : (zone.localTime? t).isSome ↔
    Instant.minSeconds ≤ (zone.localTime t).seconds ∧
      (zone.localTime t).seconds ≤ Instant.maxSeconds := by
  change _ ↔ Instant.minSeconds ≤ (zone.localTime t).asUtc.seconds ∧
    (zone.localTime t).asUtc.seconds ≤ Instant.maxSeconds
  rw [← Instant.inRange_iff, localTime?]
  split <;> simp [*]

theorem Overflow.exists_unless_eq_ok {α : Type} {o : Overflow} {x : Option α} :
    (∃ a, o.unless x = .ok a) ↔ x.isSome := by
  cases x <;> simp [Overflow.unless]

/-- The loop over the hours of a window gets past an hour: its date by the clock of the zone is
representable, and so is the next hour. -/
structure Zone.GetsPast (zone : Zone) (h : Instant) : Prop where
  shown : (zone.localTime? h).isSome
  next : h.nextHour?.isSome

namespace TariffRecord

/-- The loop over the hours of a window gets through with a record: it finds the first hour, and it
gets past all hours in which the record is valid. -/
structure GoesThrough (zone : Zone) (r : TariffRecord) (start stop : Instant) : Prop where
  begins : ∃ h, r.firstHour zone start = .ok h
  past : ∀ h ∈ r.validHours zone start stop, zone.GetsPast h

variable {zone : Zone} {r : TariffRecord} {start stop h : Instant} {s s' : Series}

/-! ## The hours of a record -/

theorem addHour_eq_ok_iff (s : Series) (h : Instant) (s' : Series) : r.addHour zone s h = .ok s' ↔
    zone.GetsPast h ∧ s' = s.insertAll ((r.priceAt? zone h).map (h, ·)).toList := by
  rw [show zone.GetsPast h ↔ (zone.localTime? h).isSome ∧ h.nextHour?.isSome from
    ⟨fun hp => ⟨hp.1, hp.2⟩, fun hp => ⟨hp.1, hp.2⟩⟩, addHour]
  cases zone.localTime? h with
  | none => simp [Overflow.unless, bind, Except.bind]
  | some l =>
    cases h.nextHour? with
    | none => simp [Overflow.unless, bind, Except.bind]
    | some next =>
      cases r.priceAt? zone h <;>
        simp [Overflow.unless, bind, Except.bind, pure, Except.pure, eq_comm]

theorem foldlM_addHour_eq_ok_iff (hs : List Instant) :
    hs.foldlM (r.addHour zone) s = .ok s' ↔ (∀ h ∈ hs, zone.GetsPast h) ∧
      s' = s.insertAll (hs.filterMap fun h => (r.priceAt? zone h).map (h, ·)) := by
  have hfold : ∀ s : Series,
      s.insertAll (hs.filterMap fun h => (r.priceAt? zone h).map (h, ·)) =
        hs.foldl (fun s h => s.insertAll ((r.priceAt? zone h).map (h, ·)).toList) s := by
    induction hs with
    | nil => exact fun s => rfl
    | cons h hs ih =>
      intro s
      rw [List.foldl_cons, ← ih, List.filterMap_cons]
      cases r.priceAt? zone h <;> rfl
  rw [hfold]
  exact foldlM_eq_ok_iff addHour_eq_ok_iff hs s s'

/-- The first hour that the loop finds is the first valid one. -/
theorem firstHour_eq (hbegins : ∃ h, r.firstHour zone start = .ok h) :
    r.firstHour zone start = .ok (firstValidHour (r.startIn zone) start) := by
  obtain ⟨h, hfirst⟩ := hbegins
  rw [hfirst]
  unfold firstHour at hfirst
  unfold firstValidHour
  have hhour := Instant.isHour_hourStart (Instant.latest (r.startIn zone) start)
  generalize (Instant.latest (r.startIn zone) start).hourStart = first at hfirst hhour ⊢
  by_cases hlt : first < r.startIn zone
  · simp only [if_pos hlt, Instant.nextHour?, Instant.hourStart_of_isHour hhour,
      Instant.add?] at hfirst ⊢
    split at hfirst
    · exact hfirst.symm
    · cases hfirst
  · simp only [if_neg hlt] at hfirst ⊢
    exact hfirst.symm

/-- What the loop over the hours of a record comes to. -/
theorem addHours_eq_ok_iff (s : Series) (r : TariffRecord) (s' : Series) :
    r.addHours zone start stop s = .ok s' ↔ (r.prices ≠ [] → r.GoesThrough zone start stop) ∧
      s' = s.insertAll (r.pricesBetween zone start stop) := by
  unfold addHours
  by_cases hempty : r.prices = []
  · have hnone : r.pricesBetween zone start stop = [] :=
      List.filterMap_eq_nil_iff.2 fun h _ => by simp [priceAt?, value?, isFlat, hempty]
    simp [hempty, hnone, eq_comm]
  · simp only [List.isEmpty_iff, hempty, if_false, ne_eq, not_false_eq_true, forall_const]
    by_cases hbegins : ∃ h, r.firstHour zone start = .ok h
    · rw [firstHour_eq hbegins]
      simp only [bind, Except.bind, foldlM_addHour_eq_ok_iff]
      constructor
      · rintro ⟨hpast, heq⟩
        exact ⟨⟨hbegins, hpast⟩, heq⟩
      · rintro ⟨hgoes, heq⟩
        exact ⟨hgoes.past, heq⟩
    · cases hfirst : r.firstHour zone start with
      | ok h => exact absurd ⟨h, hfirst⟩ hbegins
      | error o =>
        simp only [bind, Except.bind, reduceCtorEq, false_iff, not_and]
        exact fun hgoes => absurd hgoes.begins hbegins

/-! ## The hours at which the loop gets on -/

/-- From a representable instant on, the loop finds the first hour of a record unless that begins
within the last hour. -/
theorem exists_firstHour_iff (hstart : start.inRange)
    (hvalid : (r.startIn zone).seconds ≤ Instant.maxSeconds) :
    (∃ h, r.firstHour zone start = .ok h) ↔ r.startIn zone ≤ .lastHour := by
  unfold firstHour
  generalize r.startIn zone = valid at hvalid ⊢
  have hin : (Instant.latest valid start).inRange := by
    rw [Instant.inRange_iff] at hstart ⊢
    unfold Instant.latest
    split
    · rename_i hle
      rw [Instant.le_def] at hle
      omega
    · exact hstart
  have hhour := Instant.isHour_hourStart (Instant.latest valid start)
  have hmin := Instant.minSeconds_le_hourStart hin
  have hlast := Instant.hourStart_le_lastHour hin
  have hmono := Instant.hourStart_mono (Instant.le_latest_left valid start)
  generalize (Instant.latest valid start).hourStart = first at hhour hmin hlast hmono ⊢
  by_cases hlt : first < valid
  · rw [if_pos hlt, Overflow.exists_unless_eq_ok, Instant.nextHour?_isSome_iff_lt hhour hmin]
    simp only [Instant.IsHour, Instant.hourStart, Instant.lastHour, Instant.ofSeconds,
      Instant.le_def, Instant.lt_def, secondsPerHour] at hhour hlast hmono hlt ⊢
    omega
  · have hle : valid ≤ .lastHour := Instant.le_trans (Instant.not_lt.1 hlt) hlast
    simp [if_neg hlt, hle]

theorem goesThrough_iff (hstart : start.inRange)
    (hvalid : (r.startIn zone).seconds ≤ Instant.maxSeconds) :
    r.GoesThrough zone start stop ↔ r.startIn zone ≤ .lastHour ∧
      ∀ h ∈ r.validHours zone start stop, (zone.localTime? h).isSome ∧ h < .lastHour := by
  rw [← exists_firstHour_iff hstart hvalid]
  have hpast : ∀ h ∈ r.validHours zone start stop,
      (zone.GetsPast h ↔ (zone.localTime? h).isSome ∧ h < .lastHour) := by
    intro h hmem
    obtain ⟨⟨hhour, hle, -⟩, -⟩ := mem_validHours_iff.1 hmem
    have hmin : Instant.minSeconds ≤ h.seconds := by
      have hfrom := Instant.minSeconds_le_hourStart hstart
      rw [Instant.le_def] at hle
      omega
    rw [← Instant.nextHour?_isSome_iff_lt hhour hmin]
    exact ⟨fun hp => ⟨hp.1, hp.2⟩, fun hp => ⟨hp.1, hp.2⟩⟩
  exact ⟨fun hgoes => ⟨hgoes.1, fun h hmem => (hpast h hmem).1 (hgoes.2 h hmem)⟩,
    fun hgoes => ⟨hgoes.1, fun h hmem => (hpast h hmem).2 (hgoes.2 h hmem)⟩⟩

end TariffRecord

variable {zone : Zone} {records : List TariffRecord} {start stop : Instant} {s : Series}

/-- What the loop over the hours of a window comes to. -/
theorem expandBetween_eq_ok_iff : expandBetween zone records start stop = .ok s ↔
    (∀ r ∈ records, r.prices ≠ [] → r.GoesThrough zone start stop) ∧
      s = hourlyBetween zone records start stop := by
  have hfold : ∀ s : Series, s.insertAll (records.flatMap (·.pricesBetween zone start stop)) =
      records.foldl (fun s r => s.insertAll (r.pricesBetween zone start stop)) s := by
    induction records with
    | nil => exact fun s => rfl
    | cons r records ih =>
      intro s
      rw [List.flatMap_cons, Series.insertAll_append, ih, List.foldl_cons]
  rw [hourlyBetween, Series.ofList, hfold]
  exact foldlM_eq_ok_iff TariffRecord.addHours_eq_ok_iff records .empty s

theorem exists_expandBetween_iff : (∃ s, expandBetween zone records start stop = .ok s) ↔
    ∀ r ∈ records, r.prices ≠ [] → r.GoesThrough zone start stop :=
  ⟨fun ⟨_, hs⟩ => (expandBetween_eq_ok_iff.1 hs).1,
    fun hgoes => ⟨_, expandBetween_eq_ok_iff.2 ⟨hgoes, rfl⟩⟩⟩

/-! ## Windows that leave the ends of the calendar alone -/

/-- The clocks of the zones are less than a day ahead of UTC or behind it. -/
theorem Zone.offsetAt_bounds (z : Zone) (s : Int) :
    -86400 < z.table.offsetAt s ∧ z.table.offsetAt s < 86400 := by
  have hnamed : ∀ y ∈ OffsetTable.named, (-86400 < y.initial ∧ y.initial < 86400) ∧
      ∀ c ∈ y.changes, -86400 < c.offset ∧ c.offset < 86400 := by decide +kernel
  obtain ⟨hinitial, hchanges⟩ := hnamed _ z.table_mem_named
  rcases OffsetTable.offsetFrom_mem z.table.initial z.table.changes s with h | ⟨c, hc, h⟩
  · rw [OffsetTable.offsetAt, h]
    exact hinitial
  · rw [OffsetTable.offsetAt, h]
    exact hchanges c hc

/-- A window that leaves out the first day and the last one has a series. -/
theorem exists_expandBetween (hstart : start.inRange)
    (hfrom : Instant.minSeconds + 86400 ≤ start.seconds)
    (hto : stop.seconds + 86400 ≤ Instant.maxSeconds)
    (hvalid : ∀ r ∈ records, r.startIn zone ≤ .lastHour) :
    ∃ s, expandBetween zone records start stop = .ok s := by
  refine exists_expandBetween_iff.2 fun r hr _ => ?_
  have hbegins := hvalid r hr
  refine (TariffRecord.goesThrough_iff hstart (Instant.seconds_le_of_le_lastHour hbegins)).2
    ⟨hbegins, fun h hmem => ?_⟩
  obtain ⟨⟨-, hle, hlt⟩, -⟩ := TariffRecord.mem_validHours_iff.1 hmem
  have hoffset := zone.offsetAt_bounds h.seconds
  simp only [Instant.hourStart, Instant.ofSeconds, Instant.le_def, Instant.lt_def,
    Instant.minSeconds, Instant.maxSeconds, secondsPerHour] at hfrom hto hle hlt
  rw [Zone.isSome_localTime?_iff, Instant.lt_def, Zone.localTime]
  simp only [Instant.minSeconds, Instant.maxSeconds, Instant.lastHour, Instant.ofSeconds]
  omega

/-- In central Europe every local time means an instant before the end of the last hour. -/
theorem TariffRecord.startIn_le_lastHour {r : TariffRecord} (hz : zone.table = .centralEurope)
    (hvalid : r.validFrom.seconds ≤ Instant.maxSeconds) : r.startIn zone ≤ .lastHour := by
  have hseconds := Zone.instantOf_seconds hz r.validFrom
  have hoffset := OffsetTable.seasonOffset_cases (Zone.wallDay r.validFrom.seconds)
  rw [Instant.le_def, startIn, hseconds]
  simp only [Instant.maxSeconds, Instant.lastHour, Instant.ofSeconds] at hvalid ⊢
  omega

/-- Up to the last days there is a series from the current hour to the end of tomorrow. -/
theorem expand_eq_hourly {now : Instant} (hz : zone.table = .centralEurope) (hnow : now.inRange)
    (hlast : zone.dayAt now + 2 ≤ Zone.lastDay)
    (hvalid : ∀ r ∈ records, r.validFrom.seconds ≤ Instant.maxSeconds) :
    expand zone records now = .ok (hourly zone records now) := by
  refine expandBetween_eq_ok_iff.2 ⟨fun r hr _ => ?_, rfl⟩
  have hstart : now.hourStart.inRange := by
    have hfirst := Instant.minSeconds_le_hourStart hnow
    have hle := Instant.hourStart_le now
    rw [Instant.inRange_iff] at hnow ⊢
    rw [Instant.le_def] at hle
    omega
  have hbegins := TariffRecord.startIn_le_lastHour hz (hvalid r hr)
  refine (TariffRecord.goesThrough_iff hstart (Instant.seconds_le_of_le_lastHour hbegins)).2
    ⟨hbegins, fun h hmem => ?_⟩
  · obtain ⟨⟨-, hle, hlt⟩, -⟩ := TariffRecord.mem_validHours_iff.1 hmem
    have hday : zone.dayAt h < Zone.lastDay := by
      rw [Zone.endOfTomorrow, Zone.daysLater_of_le (by exact_mod_cast hlast),
        Zone.lt_midnight_iff hz] at hlt
      exact Int.lt_of_lt_of_le hlt (by exact_mod_cast hlast)
    have hshown := Zone.localTime_seconds hz h
    have hoffset := OffsetTable.seasonOffset_cases (OffsetTable.seasonDay h.seconds)
    have hend : Zone.lastDay = 95026236 := by decide
    rw [Zone.dayAt, LocalTime.day, hend] at hday
    rw [Instant.hourStart_of_isHour (Instant.isHour_hourStart now), Instant.le_def] at hle
    rw [Instant.inRange_iff] at hstart
    simp only [Instant.minSeconds, Instant.maxSeconds, secondsPerDay] at hstart hday
    rw [Zone.isSome_localTime?_iff, Instant.lt_def]
    simp only [Instant.minSeconds, Instant.maxSeconds, Instant.lastHour, Instant.ofSeconds]
    omega

end HourlyPrices
