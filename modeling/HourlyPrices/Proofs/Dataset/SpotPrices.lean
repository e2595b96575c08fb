import HourlyPrices.Dataset.Records
import HourlyPrices.Proofs.Decimal.Thousandth
import HourlyPrices.Proofs.Series

/-!
# Spot prices per kilowatt-hour

Spot records quote prices per megawatt-hour. The series that they make has a price at each hour for
which some record quotes one, and it is a thousandth of the price of the last such record
(`SpotRecord.seriesPerKwh_of_records`). There is always such a series: no price is too large to be
divided.
-/

namespace HourlyPrices.SpotRecord

variable {records : List SpotRecord} {r : SpotRecord} {currency : Currency} {t : Instant}
  {p q : Decimal}

/-- A record has a price for an hour in a currency. -/
def Quotes (r : SpotRecord) (currency : Currency) (t : Instant) (p : Decimal) : Prop :=
  r.hour = t ∧ r.price? currency = some p

/-- The price of the last record that has one for an hour in a currency. -/
def LastQuote (records : List SpotRecord) (currency : Currency) (t : Instant) (p : Decimal) :
    Prop :=
  ∃ before r after, records = before ++ r :: after ∧ r.Quotes currency t p ∧
    ∀ r' ∈ after, ∀ p', ¬ r'.Quotes currency t p'

/-- The entry that a record makes in a currency. -/
def quoted? (currency : Currency) (r : SpotRecord) : Option (Instant × Decimal) :=
  (r.price? currency).bind fun p => (p.divNat? kwhPerMwh).map (r.hour, ·)

/-- An entry is a thousandth of the price that the record has. -/
theorem quoted?_eq_some_iff : quoted? currency r = some (t, q) ↔
    ∃ p, r.Quotes currency t p ∧ p.divNat? kwhPerMwh = some q := by
  simp only [quoted?, Quotes, Option.bind_eq_some_iff, Option.map_eq_some_iff, Prod.mk.injEq]
  constructor
  · rintro ⟨p, hp, q, hq, ht, rfl⟩
    exact ⟨p, ⟨ht, hp⟩, hq⟩
  · rintro ⟨p, ⟨ht, hp⟩, hq⟩
    exact ⟨p, hp, q, hq, ht, rfl⟩

/-- The series of some records always exists: each makes its entry. -/
theorem seriesPerKwh_eq (records : List SpotRecord) (currency : Currency) :
    seriesPerKwh records currency = .ok (.ofList (records.filterMap (quoted? currency))) := by
  have hprices : pricesPerKwh records currency = .ok (records.filterMap (quoted? currency)) := by
    unfold pricesPerKwh
    induction records with
    | nil => rfl
    | cons r records ih =>
      cases hp : r.price? currency with
      | none => simpa [quoted?, hp] using ih
      | some p =>
        obtain ⟨q, hq, -⟩ := p.divNat?_thousand
        have hquoted : quoted? currency r = some (r.hour, q) :=
          quoted?_eq_some_iff.2 ⟨p, ⟨rfl, hp⟩, hq⟩
        rw [List.filterMap_cons_some (b := (r.hour, p)) (by simp [hp]),
          List.filterMap_cons_some hquoted, List.mapM_cons, ih]
        simp only [kwhPerMwh, hq]
        rfl
  rw [seriesPerKwh, hprices]
  rfl

/-- One more record sets its price, if it has one for the hour. -/
theorem get?_ofList_concat_eq_some_iff (records : List SpotRecord) (r : SpotRecord) :
    (Series.ofList ((records ++ [r]).filterMap (quoted? currency))).get? t = some q ↔
      (∃ p, r.Quotes currency t p ∧ p.divNat? kwhPerMwh = some q) ∨
        (∀ q', ¬ ∃ p, r.Quotes currency t p ∧ p.divNat? kwhPerMwh = some q') ∧
          (Series.ofList (records.filterMap (quoted? currency))).get? t = some q := by
  simp only [← quoted?_eq_some_iff]
  rw [List.filterMap_append, Series.ofList, Series.insertAll_append, ← Series.ofList]
  cases he : quoted? currency r with
  | none => simp [he]
  | some e =>
    obtain ⟨u, q'⟩ := e
    rw [List.filterMap_cons_some he, List.filterMap_nil, Series.insertAll_cons,
      Series.insertAll_nil, Series.get?_insert]
    by_cases htu : t = u
    · simp [htu]
    · simp [htu, Ne.symm htu]

/-- The series holds, at an hour, a thousandth of the price of the last record that has one. -/
theorem get?_ofList_eq_some_iff (records : List SpotRecord) :
    (Series.ofList (records.filterMap (quoted? currency))).get? t = some q ↔
      ∃ p, LastQuote records currency t p ∧ p.divNat? kwhPerMwh = some q := by
  rw [eq_some_iff_last
    (f := fun rs => (Series.ofList (rs.filterMap (quoted? currency))).get? t)
    (fun r q => ∃ p, r.Quotes currency t p ∧ p.divNat? kwhPerMwh = some q) rfl
    (fun rs r q => get?_ofList_concat_eq_some_iff rs r)]
  have hnone : ∀ r : SpotRecord,
      (∀ q, ¬ ∃ p, r.Quotes currency t p ∧ p.divNat? kwhPerMwh = some q) ↔
        ∀ p, ¬ r.Quotes currency t p := by
    intro r
    refine ⟨fun h p hp => ?_, fun h q ⟨p, hp, _⟩ => h p hp⟩
    obtain ⟨q, hq, -⟩ := p.divNat?_thousand
    exact h q ⟨p, hp, hq⟩
  simp only [hnone]
  constructor
  · rintro ⟨before, r, after, heq, ⟨p, hp, hq⟩, hafter⟩
    exact ⟨p, ⟨before, r, after, heq, hp, hafter⟩, hq⟩
  · rintro ⟨p, ⟨before, r, after, heq, hp, hafter⟩, hq⟩
    exact ⟨before, r, after, heq, ⟨p, hp, hq⟩, hafter⟩

/-- The series has a price at the hours of the records that have one. -/
theorem mem_hours_ofList (records : List SpotRecord) :
    t ∈ (Series.ofList (records.filterMap (quoted? currency))).hours ↔
      ∃ r ∈ records, r.hour = t ∧ (r.price? currency).isSome := by
  rw [Series.ofList, Series.mem_hours_insertAll]
  simp only [Series.hours, Series.empty, List.map_nil, List.not_mem_nil, false_or, List.mem_map,
    List.mem_filterMap, Prod.exists]
  constructor
  · rintro ⟨u, q, ⟨r, hr, he⟩, rfl⟩
    obtain ⟨p, hp, -⟩ := quoted?_eq_some_iff.1 he
    exact ⟨r, hr, hp.1, Option.isSome_of_mem hp.2⟩
  · rintro ⟨r, hr, rfl, hsome⟩
    obtain ⟨p, hp⟩ := Option.isSome_iff_exists.1 hsome
    obtain ⟨q, hq, -⟩ := p.divNat?_thousand
    exact ⟨r.hour, q, ⟨r, hr, quoted?_eq_some_iff.2 ⟨p, ⟨rfl, hp⟩, hq⟩⟩, rfl⟩

end HourlyPrices.SpotRecord
