import HourlyPrices.Proofs.Cost.Missing
import HourlyPrices.Proofs.Decimal.Rounding

/-!
# The cost of twice the power

The integral of the price is linear in the power, and the cost is as close to it as the roundings
allow: exactly the integral when nothing has to be rounded, as close as a quotient can be when the
sum was not rounded (`Cost.close_of_unrounded`), and in any case within `Cost.errorBound`
(`Cost.within_errorBound`). So twice the power costs twice as much, up to these errors
(`Cost.ofInterval_double`).
-/

namespace HourlyPrices.Cost

open Decimal

variable {prices : Series} {start stop h : Instant} {watts total : Decimal} {cost : Cost}

/-- What an hour may add to the size of a sum, but for the growth by roundings. -/
def shareBound (prices : Series) (start stop : Instant) (watts : Decimal) (h : Instant) : ℚ :=
  |contribution prices start stop watts h| + lastHalf * (|(overlapSeconds start stop h : ℚ)| + 2)

/-- How far the cost of an interval may be off the integral of the price. Each of its products, sums
and the quotient is rounded at most once. -/
def errorBound (prices : Series) (start stop : Instant) (watts : Decimal) : ℚ :=
  growth ^ ((touchedHours start stop).length + 3) *
      ((touchedHours start stop).map (shareBound prices start stop watts)).sum / wattSecondsPerKwh +
    lastHalf -
    ((touchedHours start stop).map fun h => |contribution prices start stop watts h|).sum /
      wattSecondsPerKwh

/-! ## The loop -/

/-- The share of an hour comes from two products. -/
theorem within_share {price part : Decimal} {n : Int} (h : share price watts n = .ok part)
    (hn : n.natAbs < coefficientBound) :
    Within (price.toRat * watts.toRat * n) part.toRat |price.toRat * watts.toRat * n|
      (growth * ((growth * |price.toRat * watts.toRat| + lastHalf) * |(n : ℚ)|) + lastHalf) := by
  obtain ⟨seconds, hseconds, hsv⟩ := ofInt?_exact hn
  unfold share at h
  rw [hseconds] at h
  cases hpower : price.mul? watts with
  | none => simp [hpower, Overflow.unless, bind, Except.bind] at h
  | some power =>
    cases hpart : power.mul? seconds with
    | none => simp [hpower, hpart, Overflow.unless, bind, Except.bind] at h
    | some part' =>
      obtain rfl : part' = part := by
        simpa [hpower, hpart, Overflow.unless, bind, Except.bind] using h
      have hproduct := ((Within.refl _).round (mul?_close hpower)).mul_right n
      rw [← abs_mul] at hproduct
      exact hproduct.round (hsv ▸ mul?_close hpart)

theorem sum_shareBound_nonneg (prices : Series) (start stop : Instant) (watts : Decimal)
    (hs : List Instant) : 0 ≤ (hs.map (shareBound prices start stop watts)).sum := by
  refine List.sum_nonneg fun x hx => ?_
  obtain ⟨h, -, rfl⟩ := List.mem_map.1 hx
  have := lastHalf_pos
  unfold shareBound
  positivity

/-- Two products and a sum are rounded for an hour. -/
theorem growth_share_le (g w : ℚ) {s : ℚ} (hs : 0 ≤ s) :
    growth * (g + (growth * ((growth * w + lastHalf) * s) + lastHalf)) + lastHalf ≤
      growth * (g + growth ^ 2 * (w * s + lastHalf * (s + 2))) := by
  have hr := one_le_growth
  have hhalf := lastHalf_pos.le
  have hsquare : growth ≤ growth ^ 2 := le_self_pow₀ hr two_ne_zero
  have hseconds : growth * (lastHalf * s) ≤ growth ^ 2 * (lastHalf * s) :=
    mul_le_mul_of_nonneg_right hsquare (mul_nonneg hhalf hs)
  have hlast : lastHalf ≤ growth ^ 2 * lastHalf :=
    le_mul_of_one_le_left hhalf (hr.trans hsquare)
  have hsum : lastHalf ≤ growth * lastHalf := le_mul_of_one_le_left hhalf hr
  calc growth * (g + (growth * ((growth * w + lastHalf) * s) + lastHalf)) + lastHalf
      ≤ growth * (g + (growth * ((growth * w + lastHalf) * s) + lastHalf)) +
          growth * lastHalf := by linarith
    _ = growth * (g + (growth ^ 2 * (w * s) + growth * (lastHalf * s) + 2 * lastHalf)) := by ring
    _ ≤ growth * (g + growth ^ 2 * (w * s + lastHalf * (s + 2))) :=
      mul_le_mul_of_nonneg_left (by linarith) (by linarith)

/-- The hours that follow grow by one rounding more than they need to. -/
theorem growth_pow_le (g b : ℚ) {s : ℚ} (hs : 0 ≤ s) (n : Nat) :
    growth ^ n * (growth * (g + growth ^ 2 * b) + growth ^ 2 * s) ≤
      growth ^ (n + 1) * (g + growth ^ 2 * (b + s)) := by
  have hr : 0 < growth := one_pos.trans_le one_le_growth
  calc growth ^ n * (growth * (g + growth ^ 2 * b) + growth ^ 2 * s)
      ≤ growth ^ n * (growth * (g + growth ^ 2 * b) + growth * (growth ^ 2 * s)) :=
        mul_le_mul_of_nonneg_left
          (add_le_add_right (le_mul_of_one_le_left (by positivity) one_le_growth) _) (by positivity)
    _ = growth ^ (n + 1) * (g + growth ^ 2 * (b + s)) := by ring

/-- With one hour more, a rounded sum grows by what the hour may add. -/
theorem within_add_share {v m g : ℚ} {price part total' : Decimal} (ht : Touches start stop h)
    (hp : prices.get? h = some price)
    (hpart : share price watts (overlapSeconds start stop h) = .ok part)
    (hadd : total.add? part = some total') (hw : Within v total.toRat m g) :
    Within (v + contribution prices start stop watts h) total'.toRat
      (m + |contribution prices start stop watts h|)
      (growth * (g + growth ^ 2 * shareBound prices start stop watts h)) := by
  have hc : contribution prices start stop watts h =
      price.toRat * watts.toRat * overlapSeconds start stop h := by simp [contribution, hp]
  have hshare := within_share hpart (natAbs_overlapSeconds_lt ht)
  rw [← hc] at hshare
  refine ((hw.add hshare).round (add?_close hadd)).mono ?_
  rw [shareBound, hc, abs_mul _ (overlapSeconds start stop h : ℚ)]
  exact growth_share_le g _ (abs_nonneg _)

/-- From a rounded sum on, the loop ends with a cost that is off by what the remaining hours add,
grown by a rounding for each of them and for the quotient. -/
theorem within_sumHours {v m g : ℚ} {hs : List Instant} (hmem : ∀ h ∈ hs, Touches start stop h)
    (hpriced : ∀ h ∈ hs, ∃ p, prices.get? h = some p)
    (hrun : sumHours prices start stop watts total hs = .ok cost) (hw : Within v total.toRat m g) :
    Within ((v + (hs.map (contribution prices start stop watts)).sum) / wattSecondsPerKwh)
      cost.value.toRat
      ((m + (hs.map fun h => |contribution prices start stop watts h|).sum) / wattSecondsPerKwh)
      (growth ^ (hs.length + 1) *
        (g + growth ^ 2 * (hs.map (shareBound prices start stop watts)).sum) / wattSecondsPerKwh +
        lastHalf) := by
  induction hs generalizing total v m g with
  | nil =>
    obtain ⟨d, hd, hclose⟩ := divNat?_spec total (d := wattSecondsPerKwh) (by decide)
    obtain rfl : Cost.amount d = cost := by
      simpa [sumHours, hd, Overflow.unless, bind, Except.bind, pure, Except.pure] using hrun
    have hquotient := hw.mul_right (1 / wattSecondsPerKwh)
    rw [abs_of_pos (by norm_num [wattSecondsPerKwh])] at hquotient
    simp only [mul_one_div] at hquotient
    simpa [mul_div_assoc, value] using hquotient.round hclose
  | cons h hs ih =>
    obtain ⟨ht, hmem⟩ := List.forall_mem_cons.1 hmem
    obtain ⟨⟨p, hp⟩, hpriced⟩ := List.forall_mem_cons.1 hpriced
    have hend : h.nextHour?.isSome := by
      by_contra hnone
      rw [sumHours_of_nextHour?_eq_none (by simpa using hnone)] at hrun
      cases hrun
    rw [sumHours_of_price hend hp] at hrun
    cases hpart : share p watts (overlapSeconds start stop h) with
    | error o => simp [hpart, bind, Except.bind] at hrun
    | ok part =>
      cases hadd : total.add? part with
      | none => simp [hpart, hadd, Overflow.unless, bind, Except.bind] at hrun
      | some total' =>
        simp only [hpart, hadd, Overflow.unless, bind, Except.bind] at hrun
        have hrest := ih hmem hpriced hrun (within_add_share ht hp hpart hadd hw)
        simp only [List.map_cons, List.sum_cons, List.length_cons, ← add_assoc]
        refine hrest.mono (add_le_add_left (div_le_div_of_nonneg_right ?_ (by positivity)) _)
        exact growth_pow_le g _ (sum_shareBound_nonneg ..) _

/-! ## The cost of an interval -/

/-- All hours of an interval have a price, and the interval is not empty. -/
def Covered (prices : Series) (start stop : Instant) : Prop :=
  start < stop ∧ ∀ h, Touches start stop h → ∃ p, prices.get? h = some p

theorem value_of_not_covered (hnot : ¬ Covered prices start stop)
    (hcost : ofInterval prices start stop watts = .ok cost) : cost.value = .zero := by
  by_cases hlt : start < stop
  · obtain ⟨h, ht, hnone⟩ : ∃ h, Touches start stop h ∧ prices.get? h = none := by
      by_contra hall
      refine hnot ⟨hlt, fun h ht => Option.ne_none_iff_exists'.1 fun hnone => hall ⟨h, ht, hnone⟩⟩
    obtain ⟨hfits, hends⟩ := (exists_ofInterval_iff hlt).1 ⟨cost, hcost⟩
    obtain ⟨h', hmissing⟩ := ofInterval_eq_priceMissing hlt hfits hends ht hnone
    cases hmissing.symm.trans hcost
    rfl
  · rw [ofInterval, if_pos (Instant.not_lt.1 hlt)] at hcost
    cases hcost
    rfl

/-- The cost of an interval is as close to the integral as the roundings of its loop allow. -/
theorem within_errorBound (hcovered : Covered prices start stop)
    (hcost : ofInterval prices start stop watts = .ok cost) :
    |cost.value.toRat - integral prices start stop watts| ≤
      errorBound prices start stop watts := by
  rw [ofInterval, if_neg (Instant.not_le.2 hcovered.1)] at hcost
  have hmem : ∀ h ∈ touchedHours start stop, Touches start stop h := fun h => mem_touchedHours.1
  have hloop := within_sumHours hmem (fun h hh => hcovered.2 h (hmem h hh)) hcost
    (v := 0) (m := 0) (g := 0) ⟨by simp, by simp⟩
  simp only [zero_add, ← mul_assoc, ← pow_add] at hloop
  exact hloop.error

/-- When no product and no sum has to be rounded, the cost is as close to the integral as a quotient
can be. -/
theorem close_of_unrounded (hcovered : Covered prices start stop)
    (hu : Unrounded prices start stop watts)
    (hcost : ofInterval prices start stop watts = .ok cost) :
    Close (integral prices start stop watts) cost.value.toRat := by
  rw [ofInterval, if_neg (Instant.not_le.2 hcovered.1)] at hcost
  obtain ⟨sum, hsum, hends, hlast⟩ := sumHours_exact hu hcovered.2 .zero
    (fun h => mem_touchedHours.1) fun front hf => by simpa using hu.partialSum front hf
  have hall : ∀ h ∈ touchedHours start stop, h.nextHour?.isSome := by
    by_contra hnot
    cases (hlast (by simpa using hnot)).symm.trans hcost
  obtain ⟨d, hd, hclose⟩ := divNat?_spec sum (d := wattSecondsPerKwh) (by decide)
  obtain rfl : Cost.amount d = cost := by
    have hend := (hends hall).symm.trans hcost
    simpa [sumHours, hd, Overflow.unless, bind, Except.bind, pure, Except.pure] using hend
  rw [hsum, toRat_zero, zero_add] at hclose
  exact hclose

theorem errorBound_nonneg (prices : Series) (start stop : Instant) (watts : Decimal) :
    0 ≤ errorBound prices start stop watts := by
  have hshares : ((touchedHours start stop).map fun h =>
      |contribution prices start stop watts h|).sum ≤
      ((touchedHours start stop).map (shareBound prices start stop watts)).sum :=
    List.sum_le_sum fun h _ => le_add_of_nonneg_right
      (mul_nonneg lastHalf_pos.le (by positivity))
  have hgrown := le_mul_of_one_le_left
    (sum_shareBound_nonneg prices start stop watts (touchedHours start stop))
    (one_le_pow₀ one_le_growth (n := (touchedHours start stop).length + 3))
  have hquotient := div_le_div_of_nonneg_right (hshares.trans hgrown)
    (Nat.cast_nonneg wattSecondsPerKwh : (0 : ℚ) ≤ wattSecondsPerKwh)
  have := lastHalf_pos
  unfold errorBound
  linarith

/-! ## Twice the power -/

variable {double : Decimal}

theorem contribution_double (hdouble : double.toRat = 2 * watts.toRat) (h : Instant) :
    contribution prices start stop double h = 2 * contribution prices start stop watts h := by
  rw [contribution, contribution, hdouble]
  ring

theorem integral_double (hdouble : double.toRat = 2 * watts.toRat) :
    integral prices start stop double = 2 * integral prices start stop watts := by
  have hall : contribution prices start stop double =
      fun h => 2 * contribution prices start stop watts h := funext (contribution_double hdouble)
  rw [integral, integral, hall, List.sum_map_mul_left, mul_div_assoc]

theorem abs_sub_double_le {x y v a b : ℚ} (hx : |x - 2 * v| ≤ a) (hy : |y - v| ≤ b) :
    |x - 2 * y| ≤ a + 2 * b := by
  rw [abs_le] at *
  constructor <;> linarith

/-- Twice the power costs twice as much when nothing has to be rounded for either. When only the
quotients have to be, the costs differ by what each of them may be off, and in general by what the
roundings on the way may come to. -/
theorem ofInterval_double (prices : Series) (start stop : Instant) (watts double : Decimal)
    (hdouble : double.toRat = 2 * watts.toRat) (cost cost' : Cost)
    (hcost : ofInterval prices start stop watts = .ok cost)
    (hcost' : ofInterval prices start stop double = .ok cost') :
    (Unrounded prices start stop watts → Unrounded prices start stop double →
      Representable (integral prices start stop watts) →
      Representable (2 * integral prices start stop watts) →
      cost'.value.toRat = 2 * cost.value.toRat) ∧
    (Unrounded prices start stop watts → Unrounded prices start stop double →
      |cost'.value.toRat - 2 * cost.value.toRat| ≤
        max (1 / 2 / 10 ^ 28) (|2 * integral prices start stop watts| * 10 / 2 ^ 96) +
          2 * max (1 / 2 / 10 ^ 28) (|integral prices start stop watts| * 10 / 2 ^ 96)) ∧
    |cost'.value.toRat - 2 * cost.value.toRat| ≤
      errorBound prices start stop double + 2 * errorBound prices start stop watts := by
  by_cases hcovered : Covered prices start stop
  · have hbound : (coefficientBound : ℚ) = 2 ^ 96 := by norm_num [coefficientBound]
    have hclose (hu : Unrounded prices start stop watts) := close_of_unrounded hcovered hu hcost
    have hclose' (hu : Unrounded prices start stop double) := close_of_unrounded hcovered hu hcost'
    rw [integral_double hdouble] at hclose'
    refine ⟨fun hu hu' hr hr' => ?_, fun hu hu' => ?_, ?_⟩
    · rw [(hclose hu).exact hr, (hclose' hu').exact hr']
    · rw [← hbound]
      exact abs_sub_double_le (hclose' hu').error (hclose hu).error
    · refine abs_sub_double_le (integral_double hdouble ▸ ?_) (within_errorBound hcovered hcost)
      exact within_errorBound hcovered hcost'
  · have hzero : cost'.value.toRat - 2 * cost.value.toRat = 0 := by
      rw [value_of_not_covered hcovered hcost, value_of_not_covered hcovered hcost', toRat_zero,
        mul_zero, sub_zero]
    have hbound := errorBound_nonneg prices start stop watts
    have hbound' := errorBound_nonneg prices start stop double
    refine ⟨fun _ _ _ _ => sub_eq_zero.1 hzero, fun _ _ => ?_, ?_⟩
    · rw [hzero, abs_zero]
      positivity
    · rw [hzero, abs_zero]
      positivity

/-- Within one clock hour nothing is rounded when neither product is. -/
theorem unrounded_of_touchedHours_eq {price : Decimal} (hhours : touchedHours start stop = [h])
    (hp : prices.get? h = some price) (hpower : Representable (price.toRat * watts.toRat))
    (hproduct : Representable (contribution prices start stop watts h)) :
    Unrounded prices start stop watts := by
  have honly : ∀ h', Touches start stop h' → h' = h := fun h' ht => by
    simpa [hhours] using mem_touchedHours.2 ht
  refine ⟨fun h' p ht hp' => ?_, fun h' ht => honly h' ht ▸ hproduct, fun hs hpre => ?_⟩
  · obtain rfl := honly h' ht
    obtain rfl := Option.some.inj (hp.symm.trans hp')
    exact hpower
  · rw [hhours, ← List.mem_inits] at hpre
    obtain rfl | rfl : hs = [] ∨ hs = [h] := by simpa using hpre
    · exact ⟨zero, by simp⟩
    · simpa using hproduct

/-- An hour at a price of 2, with 150 W and with 300 W. -/
theorem ofInterval_double_hour : ∃ cost cost',
    ofInterval (.ofList [(.ofSeconds 1675522800, { num := 2, scale := 0 })])
      (.ofSeconds 1675522800) (.ofSeconds 1675526400) { num := 150, scale := 0 } = .ok cost ∧
    ofInterval (.ofList [(.ofSeconds 1675522800, { num := 2, scale := 0 })])
      (.ofSeconds 1675522800) (.ofSeconds 1675526400) { num := 300, scale := 0 } = .ok cost' ∧
    cost'.value.toRat = 2 * cost.value.toRat := by
  have hhours : touchedHours (.ofSeconds 1675522800) (.ofSeconds 1675526400) =
      [.ofSeconds 1675522800] := by decide
  have hseconds : overlapSeconds (.ofSeconds 1675522800) (.ofSeconds 1675526400)
      (.ofSeconds 1675522800) = 3600 := by decide
  have hp : (Series.ofList [(.ofSeconds 1675522800, { num := 2, scale := 0 })]).get?
      (.ofSeconds 1675522800) = some { num := 2, scale := 0 } := by decide
  have hcost : ofInterval (.ofList [(.ofSeconds 1675522800, { num := 2, scale := 0 })])
      (.ofSeconds 1675522800) (.ofSeconds 1675526400) { num := 150, scale := 0 } =
      .ok (.amount { num := 30, scale := 2 }) := by decide +kernel
  have hcost' : ofInterval (.ofList [(.ofSeconds 1675522800, { num := 2, scale := 0 })])
      (.ofSeconds 1675522800) (.ofSeconds 1675526400) { num := 300, scale := 0 } =
      .ok (.amount { num := 60, scale := 2 }) := by decide +kernel
  refine ⟨_, _, hcost, hcost', ?_⟩
  generalize Series.ofList [(.ofSeconds 1675522800, { num := 2, scale := 0 })] = prices at *
  have hc : contribution prices (.ofSeconds 1675522800) (.ofSeconds 1675526400)
      { num := 150, scale := 0 } (.ofSeconds 1675522800) = 1080000 := by
    norm_num [contribution, hp, hseconds, toRat]
  have hc' : contribution prices (.ofSeconds 1675522800) (.ofSeconds 1675526400)
      { num := 300, scale := 0 } (.ofSeconds 1675522800) = 2160000 := by
    norm_num [contribution, hp, hseconds, toRat]
  refine (ofInterval_double prices _ _ { num := 150, scale := 0 } { num := 300, scale := 0 }
    (by norm_num [toRat]) _ _ hcost hcost').1 ?_ ?_ ?_ ?_
  · exact unrounded_of_touchedHours_eq hhours hp ⟨{ num := 300, scale := 0 }, by norm_num [toRat]⟩
      ⟨{ num := 1080000, scale := 0 }, by norm_num [toRat, hc]⟩
  · exact unrounded_of_touchedHours_eq hhours hp ⟨{ num := 600, scale := 0 }, by norm_num [toRat]⟩
      ⟨{ num := 2160000, scale := 0 }, by norm_num [toRat, hc']⟩
  · exact ⟨{ num := 3, scale := 1 },
      by norm_num [toRat, integral, hhours, hc, wattSecondsPerKwh]⟩
  · exact ⟨{ num := 6, scale := 1 },
      by norm_num [toRat, integral, hhours, hc, wattSecondsPerKwh]⟩

/-- A second at a price of 1, with 2 W and with 4 W: both quotients are rounded. -/
theorem ofInterval_double_ne :
    (({ num := 4, scale := 0 } : Decimal).toRat = 2 * ({ num := 2, scale := 0 } : Decimal).toRat) ∧
    ofInterval (.ofList [(.ofSeconds 1675522800, .one)])
        (.ofSeconds 1675522800) (.ofSeconds 1675522801) { num := 2, scale := 0 } =
      .ok (.amount { num := 5555555555555555555556, scale := 28 }) ∧
    ofInterval (.ofList [(.ofSeconds 1675522800, .one)])
        (.ofSeconds 1675522800) (.ofSeconds 1675522801) { num := 4, scale := 0 } =
      .ok (.amount { num := 11111111111111111111111, scale := 28 }) ∧
    ({ num := 11111111111111111111111, scale := 28 } : Decimal).toRat ≠
      2 * ({ num := 5555555555555555555556, scale := 28 } : Decimal).toRat := by
  refine ⟨by norm_num [toRat], by decide +kernel, by decide +kernel, by norm_num [toRat]⟩

end HourlyPrices.Cost
