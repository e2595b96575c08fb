import HourlyPrices.Proofs.Tariff.LastRecord
import HourlyPrices.Proofs.Zone.Gap

/-!
# Records that have ended on the wall

From an hour on, a record whose end the clock does not show later publishes no price, unless it ends
at a time that was moved forward into this hour (`TariffRecord.endsAfter_iff`). Which records may be
left out of a list is told by `get?_hourlyBetween_filter`, and what the others give is told by
`get?_hourlyBetween_filter_eq_some_iff`.
-/

namespace HourlyPrices

/-- A record with one price for each hour between two local times. -/
def TariffRecord.flat (first last : LocalTime) (p : Decimal) : TariffRecord :=
  .ofPrices first (some last) "" [some p]

/-- A record ends at a time that the clock leaves out, and that is moved forward into an hour. -/
def TariffRecord.EndsInto (zone : Zone) (r : TariffRecord) (h : Instant) : Prop :=
  ∃ l, r.validTo = some l ∧ zone.MovesInto l h

variable {zone : Zone} {records : List TariffRecord} {r : TariffRecord}
  {start stop t h : Instant} {p : Decimal}

/-- Of the records that publish a price for an hour from `t` on, the clock shows the end of all
after `t`, but for those that end into the hour itself. -/
theorem TariffRecord.endsAfter_iff (hz : zone.table = .centralEurope) (ht : t.IsHour)
    (hh : h.IsHour) (hle : t ≤ h) (hr : r.Publishes zone h p) :
    r.endsAfter (zone.localTime t) ↔ ¬ (h = t ∧ r.EndsInto zone t) := by
  constructor
  · rintro hafter ⟨-, l, hl, hmoves⟩
    simp only [endsAfter, hl, decide_eq_true_eq] at hafter
    exact Instant.lt_irrefl _ (Instant.lt_trans hafter (hmoves.lt_localTime hz))
  · intro hnot
    by_contra hended
    cases hl : r.validTo with
    | none => simp [endsAfter, hl] at hended
    | some l =>
      simp only [endsAfter, hl, decide_eq_true_eq, Instant.not_lt] at hended
      have hlt : h < zone.instantOf l := hr.not_ended l hl
      rcases Zone.instantOf_le_of_le_localTime hz ht hended with hpast | hmoves
      · exact Instant.lt_irrefl _ (Instant.lt_of_lt_of_le hlt (Instant.le_trans hpast hle))
      · refine hnot ⟨?_, l, hl, hmoves⟩
        have hhour : h ≤ t := by
          rw [← Instant.hourStart_of_isHour hh, ← hmoves.hourStart]
          exact Instant.hourStart_mono (Instant.le_of_lt hlt)
        exact Instant.eq_of_not_lt (Instant.not_lt.2 hle) (Instant.not_lt.2 hhour)

/-- With some records alone, the price of an hour is that of the last of these that publishes
one. -/
theorem get?_hourlyBetween_filter_eq_some_iff (f : TariffRecord → Bool)
    (hw : h.IsHour ∧ start.hourStart ≤ h ∧ h < stop) :
    (hourlyBetween zone (records.filter f) start stop).get? h = some p ↔
      ∃ before r after, records = before ++ r :: after ∧ (f r ∧ r.Publishes zone h p) ∧
        ∀ r' ∈ after, ∀ q, ¬ (f r' ∧ r'.Publishes zone h q) := by
  refine eq_some_iff_last (f := fun rs => (hourlyBetween zone (rs.filter f) start stop).get? h)
    (fun r q => f r ∧ r.Publishes zone h q) ?_ ?_ records p
  · simp [hourlyBetween, Series.ofList]
  · intro rs r q
    rw [List.filter_append]
    by_cases hf : f r
    · simp [hf, get?_hourlyBetween_concat_eq_some_iff hw]
    · simp [hf]

/-- Records that publish no price for an hour of the window may be left out. -/
theorem get?_hourlyBetween_filter {f : TariffRecord → Bool}
    (hf : h.IsHour ∧ start.hourStart ≤ h ∧ h < stop →
      ∀ r ∈ records, ∀ p, r.Publishes zone h p → f r) :
    (hourlyBetween zone (records.filter f) start stop).get? h =
      (hourlyBetween zone records start stop).get? h := by
  induction records using List.reverseRecOn with
  | nil => rfl
  | append_singleton records r ih =>
    have hrest := ih fun hw r' hr' => hf hw r' (by simp [hr'])
    rw [List.filter_append]
    by_cases hfr : f r
    · rw [List.filter_cons_of_pos hfr, List.filter_nil, get?_hourlyBetween_concat,
        get?_hourlyBetween_concat, hrest]
    · rw [List.filter_cons_of_neg hfr, List.filter_nil, List.append_nil, hrest,
        get?_hourlyBetween_concat]
      split
      · rename_i hvalid
        have hw := (TariffRecord.mem_validHours_iff.1 hvalid).1
        cases hp : r.priceAt? zone h with
        | none => rfl
        | some p =>
          exact absurd (hf hw r (by simp) p ((TariffRecord.publishes_iff hw).2 ⟨hvalid, hp⟩)) hfr
      · rfl

end HourlyPrices
