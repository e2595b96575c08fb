import HourlyPrices.Proofs.Series
import HourlyPrices.Proofs.Time.Hours
import Mathlib.Data.List.Induction

/-!
# The last record that publishes a price counts

When a record publishes a price for an hour is stated by `TariffRecord.Publishes`, without regard to
windows and to other records. The hourly series of a list of records holds, at the clock hours of
the window, the price of the last record that publishes one (`get?_hourlyBetween_eq_some_iff`).
-/

namespace HourlyPrices

/-- Whole hours gone by from one instant to another; none when the other is earlier. -/
def Instant.hoursSince (t start : Instant) : Nat :=
  ((t.since start).nanos / (secondsPerHour * nanosPerSecond)).toNat

namespace TariffRecord

/-- The number of the value that a record has for an hour: the whole hours gone by since the local
day of the hour began, or since the validity began, whichever was later. -/
def valueNumber (zone : Zone) (r : TariffRecord) (h : Instant) : Nat :=
  h.hoursSince (Instant.latest (zone.midnight (zone.dayAt h)) (zone.instantOf r.validFrom))

/-- A record publishes the price `p` for an hour: the hour starts within its validity, and `p` is
its only value, or, of several, the one with the number of the hour. -/
structure Publishes (zone : Zone) (r : TariffRecord) (h : Instant) (p : Decimal) : Prop where
  started : zone.instantOf r.validFrom ≤ h
  not_ended : ∀ l, r.validTo = some l → h < zone.instantOf l
  value : r.prices = [some p] ∨
    r.prices.length ≠ 1 ∧ r.prices[r.valueNumber zone h]? = some (some p)

variable {zone : Zone} {r : TariffRecord} {start stop h : Instant} {p : Decimal}

private theorem tdiv_nonpos {a b : Int} (ha : a ≤ 0) (hb : 0 ≤ b) : a.tdiv b ≤ 0 := by
  have h := Int.tdiv_nonneg (Int.neg_nonneg_of_nonpos ha) hb
  rw [Int.neg_tdiv] at h
  exact Int.nonpos_of_neg_nonneg h

theorem hourIndex_eq_hoursSince (zone : Zone) (valid h : Instant) :
    hourIndex zone valid h =
      h.hoursSince (Instant.latest (zone.midnight (zone.dayAt h)) valid) := by
  generalize hd : Instant.latest (zone.midnight (zone.dayAt h)) valid = day
  simp only [hourIndex, hd, Instant.hoursSince, Span.seconds]
  generalize (h.since day).nanos = n
  -- Before the day has begun no hour has gone by; from then on both divisions round down.
  rcases Int.le_total 0 n with hn | hn
  · rw [Int.tdiv_eq_ediv_of_nonneg hn, Int.tdiv_eq_ediv_of_nonneg (Int.ediv_nonneg hn (by decide)),
      Int.ediv_ediv_of_nonneg (by decide), Int.mul_comm]
  · have h₁ : (n.tdiv nanosPerSecond).tdiv secondsPerHour ≤ 0 :=
      tdiv_nonpos (tdiv_nonpos hn (by decide)) (by decide)
    have h₂ : n / (secondsPerHour * nanosPerSecond) ≤ 0 :=
      Int.ediv_nonpos_of_nonpos_of_neg hn (by decide)
    rw [Int.toNat_of_nonpos h₁, Int.toNat_of_nonpos h₂]

theorem value?_eq_some_iff {n : Nat} :
    r.value? n = some p ↔
      r.prices = [some p] ∨ r.prices.length ≠ 1 ∧ r.prices[n]? = some (some p) := by
  unfold value? isFlat
  rcases r.prices with _ | ⟨q, _ | ⟨q', qs⟩⟩
  · simp
  · simp
  · simp [Option.join_eq_some_iff]

theorem mem_validHours_iff : h ∈ r.validHours zone start stop ↔
    (h.IsHour ∧ start.hourStart ≤ h ∧ h < stop) ∧
      zone.instantOf r.validFrom ≤ h ∧ ∀ l, r.validTo = some l → h < zone.instantOf l := by
  rw [validHours, mem_hoursBetween (isHour_firstValidHour ..)]
  by_cases hh : h.IsHour
  · rw [firstValidHour_le_iff hh, startIn, stopIn]
    cases r.validTo with
    | none => grind
    | some l => simp only [Instant.lt_earliest_iff]; grind
  · simp [hh]

/-- In the clock hours of a window, a record sets the price that it publishes. -/
theorem publishes_iff (hw : h.IsHour ∧ start.hourStart ≤ h ∧ h < stop) :
    r.Publishes zone h p ↔ h ∈ r.validHours zone start stop ∧ r.priceAt? zone h = some p := by
  rw [mem_validHours_iff, priceAt?, value?_eq_some_iff, hourIndex_eq_hoursSince, startIn]
  exact ⟨fun ⟨h₁, h₂, h₃⟩ => ⟨⟨hw, h₁, h₂⟩, h₃⟩, fun ⟨⟨_, h₁, h₂⟩, h₃⟩ => ⟨h₁, h₂, h₃⟩⟩

end TariffRecord

variable {zone : Zone} {start stop h : Instant} {p : Decimal}

/-- One more record sets the prices that it gives to its hours, and leaves the others. -/
theorem get?_hourlyBetween_concat (zone : Zone) (records : List TariffRecord) (r : TariffRecord)
    (start stop h : Instant) :
    (hourlyBetween zone (records ++ [r]) start stop).get? h =
      if h ∈ r.validHours zone start stop then
        (r.priceAt? zone h).or ((hourlyBetween zone records start stop).get? h)
      else (hourlyBetween zone records start stop).get? h := by
  rw [hourlyBetween, List.flatMap_append, List.flatMap_singleton, Series.ofList,
    Series.insertAll_append, TariffRecord.pricesBetween, Series.get?_insertAll_filterMap]
  rfl

/-- Only clock hours of the window have a price. -/
theorem inWindow_of_get?_hourlyBetween {records : List TariffRecord}
    (hp : (hourlyBetween zone records start stop).get? h = some p) :
    h.IsHour ∧ start.hourStart ≤ h ∧ h < stop := by
  induction records using List.reverseRecOn with
  | nil => simp [hourlyBetween, Series.ofList] at hp
  | append_singleton records r ih =>
    rw [get?_hourlyBetween_concat] at hp
    split at hp
    · rename_i hm
      exact (TariffRecord.mem_validHours_iff.1 hm).1
    · exact ih hp

/-- One more record gives the price that it publishes, or else leaves that of the records before. -/
theorem get?_hourlyBetween_concat_eq_some_iff {records : List TariffRecord} {r : TariffRecord}
    (hw : h.IsHour ∧ start.hourStart ≤ h ∧ h < stop) :
    (hourlyBetween zone (records ++ [r]) start stop).get? h = some p ↔
      r.Publishes zone h p ∨ (∀ q, ¬ r.Publishes zone h q) ∧
        (hourlyBetween zone records start stop).get? h = some p := by
  simp only [TariffRecord.publishes_iff hw, get?_hourlyBetween_concat]
  by_cases hm : h ∈ r.validHours zone start stop
  · cases r.priceAt? zone h <;> simp [hm]
  · simp [hm]

/-- The hourly series holds a price exactly at the clock hours of the window for which some record
publishes one, and it is the price of the last such record. -/
theorem get?_hourlyBetween_eq_some_iff (zone : Zone) (records : List TariffRecord)
    (start stop h : Instant) (p : Decimal) :
    (hourlyBetween zone records start stop).get? h = some p ↔
      (h.IsHour ∧ start.hourStart ≤ h ∧ h < stop) ∧
        ∃ before r after, records = before ++ r :: after ∧ r.Publishes zone h p ∧
          ∀ r' ∈ after, ∀ q, ¬ r'.Publishes zone h q := by
  by_cases hw : h.IsHour ∧ start.hourStart ≤ h ∧ h < stop
  · rw [and_iff_right hw]
    refine eq_some_iff_last (f := fun rs => (hourlyBetween zone rs start stop).get? h)
      (fun r q => r.Publishes zone h q) ?_ (fun _ _ _ => get?_hourlyBetween_concat_eq_some_iff hw)
      records p
    simp [hourlyBetween, Series.ofList]
  · exact iff_of_false (fun hp => hw (inWindow_of_get?_hourlyBetween hp)) fun hp => hw hp.1

end HourlyPrices
