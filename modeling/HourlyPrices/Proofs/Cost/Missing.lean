import HourlyPrices.Proofs.Cost.Integral

/-!
# Hours without a price

The cost of an interval is known when each clock hour that it touches has a price; otherwise the
first one without a price is the answer (`Cost.ofInterval_eq`). Only the hours before that one are
added up, so only their sum has to be in range (`Cost.Fits`), and only they and that one have to end
at representable instants (`Cost.HoursEnd`).
-/

namespace HourlyPrices.Cost

variable {prices : Series} {start stop h : Instant} {watts : Decimal}

/-- The share of an hour, added to what has been summed so far. -/
def addShare (prices : Series) (start stop : Instant) (watts total : Decimal) (h : Instant) :
    Except Overflow Decimal := do
  let part ← share ((prices.get? h).getD .zero) watts (overlapSeconds start stop h)
  Overflow.decimal.unless (total.add? part)

/-- The hours of a list before the first one without a price. -/
def pricedFront (prices : Series) (hs : List Instant) : List Instant :=
  hs.takeWhile fun h => (prices.get? h).isSome

/-- The sum of the shares of the touched hours before the first one without a price is in range. -/
def Fits (prices : Series) (start stop : Instant) (watts : Decimal) : Prop :=
  ∃ sum, (pricedFront prices (touchedHours start stop)).foldlM
    (addShare prices start stop watts) .zero = .ok sum

/-- The hours of a list that are looked at: those before the first one without a price, and that
one. -/
def lookedAt (prices : Series) : List Instant → List Instant
  | [] => []
  | h :: hs => h :: if (prices.get? h).isSome then lookedAt prices hs else []

/-- The touched hours that are looked at end at representable instants. -/
def HoursEnd (prices : Series) (start stop : Instant) : Prop :=
  ∀ h ∈ lookedAt prices (touchedHours start stop), h.nextHour?.isSome

/-- What a sum of shares comes to: an amount, unless an hour has no price. -/
def conclusion (sum : Decimal) : Option Instant → Except Overflow Cost
  | some h => .ok (.priceMissing h)
  | none => .amount <$> Overflow.decimal.unless (sum.divNat? wattSecondsPerKwh)

theorem pricedFront_cons_of_price {p : Decimal} {hs : List Instant} (hp : prices.get? h = some p) :
    pricedFront prices (h :: hs) = h :: pricedFront prices hs :=
  List.takeWhile_cons_of_pos (by simp [hp])

theorem pricedFront_cons_of_missing {hs : List Instant} (hp : prices.get? h = none) :
    pricedFront prices (h :: hs) = [] := List.takeWhile_cons_of_neg (by simp [hp])

/-- The loop adds up the shares of the hours before the first one without a price, unless one of the
hours that it looks at ends out of range. -/
theorem sumHours_eq {hs : List Instant} (hends : ∀ h ∈ lookedAt prices hs, h.nextHour?.isSome)
    (total : Decimal) :
    sumHours prices start stop watts total hs =
      ((pricedFront prices hs).foldlM (addShare prices start stop watts) total >>= fun sum =>
        conclusion sum (hs.find? fun h => (prices.get? h).isNone)) := by
  induction hs generalizing total with
  | nil => rfl
  | cons h hs ih =>
    rw [lookedAt, List.forall_mem_cons] at hends
    obtain ⟨hend, hrest⟩ := hends
    cases hp : prices.get? h with
    | none =>
      rw [sumHours_of_missing hend hp, pricedFront_cons_of_missing hp,
        List.find?_cons_of_pos (by simp [hp])]
      rfl
    | some p =>
      rw [hp] at hrest
      rw [sumHours_of_price hend hp, pricedFront_cons_of_price hp,
        List.find?_cons_of_neg (by simp [hp])]
      simp only [List.foldlM_cons, addShare, hp, Option.getD_some, ih hrest, bind_assoc]

/-- An hour that is looked at and ends out of range leaves nothing but an overflow: that of the
time, if the sum of the hours before is in range. -/
theorem sumHours_of_lookedAt {hs : List Instant} (hend : ∃ h ∈ lookedAt prices hs,
    h.nextHour? = none) (total : Decimal) : (∃ o, sumHours prices start stop watts total hs =
      .error o) ∧ ((∃ sum, (pricedFront prices hs).foldlM (addShare prices start stop watts) total =
        .ok sum) → sumHours prices start stop watts total hs = .error .time) := by
  induction hs generalizing total with
  | nil => simp [lookedAt] at hend
  | cons h hs ih =>
    cases hnext : h.nextHour? with
    | none =>
      have hout : sumHours prices start stop watts total (h :: hs) = .error .time :=
        sumHours_of_nextHour?_eq_none hnext
      exact ⟨⟨_, hout⟩, fun _ => hout⟩
    | some next =>
      cases hp : prices.get? h with
      | none => simp [lookedAt, hp, hnext] at hend
      | some p =>
        have hrest : ∃ h ∈ lookedAt prices hs, h.nextHour? = none := by
          simpa [lookedAt, hp, hnext] using hend
        rw [sumHours_of_price (by simp [hnext]) hp, pricedFront_cons_of_price hp, List.foldlM_cons,
          addShare, hp, Option.getD_some]
        cases share p watts (overlapSeconds start stop h) with
        | error o => exact ⟨⟨o, rfl⟩, fun ⟨_, h⟩ => by cases h⟩
        | ok part =>
          cases hadd : total.add? part with
          | none => simp [hadd, Overflow.unless, bind, Except.bind]
          | some total' => simpa [hadd, Overflow.unless, bind, Except.bind] using ih hrest total'

/-- The cost of an interval, by the hours before the first one without a price and by that hour. -/
theorem ofInterval_eq (hlt : start < stop) (hends : HoursEnd prices start stop) :
    ofInterval prices start stop watts =
      ((pricedFront prices (touchedHours start stop)).foldlM (addShare prices start stop watts)
        .zero >>= fun sum =>
          conclusion sum ((touchedHours start stop).find? fun h => (prices.get? h).isNone)) := by
  rw [ofInterval, if_neg (Instant.not_le.2 hlt)]
  exact sumHours_eq hends _

theorem ofInterval_of_not_hoursEnd (hlt : start < stop) (hends : ¬ HoursEnd prices start stop)
    (watts : Decimal) : (∃ o, ofInterval prices start stop watts = .error o) ∧
      (Fits prices start stop watts → ofInterval prices start stop watts = .error .time) := by
  have hlast : ∃ h ∈ lookedAt prices (touchedHours start stop), h.nextHour? = none := by
    simpa [HoursEnd] using hends
  rw [ofInterval, if_neg (Instant.not_le.2 hlt)]
  exact sumHours_of_lookedAt hlast .zero

theorem exists_conclusion (sum : Decimal) (h : Option Instant) :
    ∃ cost, conclusion sum h = .ok cost := by
  cases h with
  | some h => exact ⟨_, rfl⟩
  | none =>
    obtain ⟨q, hq, -⟩ := sum.divNat?_spec (d := wattSecondsPerKwh) (by decide)
    exact ⟨.amount q, by rw [conclusion, hq]; rfl⟩

/-- An interval has a cost, or a first hour without a price, unless the sum overflows before, or an
hour ends out of range. -/
theorem exists_ofInterval_iff (hlt : start < stop) :
    (∃ cost, ofInterval prices start stop watts = .ok cost) ↔
      Fits prices start stop watts ∧ HoursEnd prices start stop := by
  by_cases hends : HoursEnd prices start stop
  · rw [ofInterval_eq hlt hends, Fits, and_iff_left hends]
    cases (pricedFront prices (touchedHours start stop)).foldlM (addShare prices start stop watts)
        .zero with
    | error o => exact iff_of_false (fun ⟨_, h⟩ => by cases h) (fun ⟨_, h⟩ => by cases h)
    | ok sum => exact iff_of_true (exists_conclusion sum _) ⟨sum, rfl⟩
  · obtain ⟨o, ho⟩ := (ofInterval_of_not_hoursEnd hlt hends watts).1
    refine iff_of_false ?_ fun h => hends h.2
    rintro ⟨cost, hcost⟩
    cases ho.symm.trans hcost

/-- When a touched hour has no price, the answer is the first such hour. -/
theorem ofInterval_eq_priceMissing (hlt : start < stop) (hfits : Fits prices start stop watts)
    (hends : HoursEnd prices start stop) (ht : Touches start stop h) (hp : prices.get? h = none) :
    ∃ h', ofInterval prices start stop watts = .ok (.priceMissing h') := by
  obtain ⟨sum, hsum⟩ := hfits
  have hsome : ((touchedHours start stop).find? fun h => (prices.get? h).isNone).isSome :=
    List.find?_isSome.2 ⟨h, mem_touchedHours.2 ht, by rw [hp]; rfl⟩
  obtain ⟨h', hh'⟩ := Option.isSome_iff_exists.1 hsome
  refine ⟨h', ?_⟩
  rw [ofInterval_eq hlt hends, hsum, hh']
  rfl

/-- When each touched hour has a price, the answer is an amount. -/
theorem ofInterval_eq_amount (hlt : start < stop) (hfits : Fits prices start stop watts)
    (hends : HoursEnd prices start stop)
    (hpriced : ∀ h, Touches start stop h → (prices.get? h).isSome) :
    ∃ amount, ofInterval prices start stop watts = .ok (.amount amount) := by
  obtain ⟨sum, hsum⟩ := hfits
  have hnone : ((touchedHours start stop).find? fun h => (prices.get? h).isNone) = none := by
    refine List.find?_eq_none.2 fun h hh => ?_
    simpa [← Option.isSome_iff_ne_none] using hpriced h (mem_touchedHours.1 hh)
  obtain ⟨q, hq, -⟩ := sum.divNat?_spec (d := wattSecondsPerKwh) (by decide)
  refine ⟨q, ?_⟩
  rw [ofInterval_eq hlt hends, hsum, hnone]
  change Except.map Cost.amount _ = _
  rw [hq]
  rfl

end HourlyPrices.Cost
