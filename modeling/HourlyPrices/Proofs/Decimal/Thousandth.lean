import HourlyPrices.Proofs.Decimal.Quotient

/-!
# Quotients with room for every digit

A quotient that could be written with all 28 digits is off by at most half a unit of the last of
them (`divNat?_near`). A thousandth of a decimal has that room or needs no more digits than there
are: it is exact when the decimal has at most 25 fraction digits, and only then
(`divNat?_thousand`).
-/

namespace HourlyPrices.Decimal

/-! ## The last scale -/

namespace Settled

variable {v : ℚ} {p : Nat × Nat}

/-- With room for all digits the coefficient does not reach the bound. -/
theorem lt_of_room (h : Settled v p) (hv : 0 ≤ v)
    (hroom : v * 10 ^ maxScale ≤ coefficientBound - 1) : p.1 < coefficientBound := by
  rcases h.size with hlt | ⟨heq, -⟩
  · exact hlt
  · have hnear := (abs_le.1 h.near).2
    have hgrow : v * 10 ^ p.2 ≤ v * 10 ^ maxScale :=
      mul_le_mul_of_nonneg_left (pow_le_pow_right₀ (by norm_num) h.scale_le) hv
    rw [heq] at hnear
    linarith

/-- With room for all digits the last of them is rounded, if any is. -/
theorem near_of_room (h : Settled v p) (hv : 0 ≤ v)
    (hroom : v * 10 ^ maxScale ≤ coefficientBound - 1) :
    |(p.1 : ℚ) / 10 ^ p.2 - v| ≤ 1 / 2 / 10 ^ maxScale := by
  have hpow := ten_pow_pos p.2
  have hsub : (p.1 : ℚ) / 10 ^ p.2 - v = (p.1 - v * 10 ^ p.2) / 10 ^ p.2 := by
    rw [sub_div, mul_div_cancel_right₀ _ hpow.ne']
  rw [hsub, abs_div, abs_of_pos hpow]
  rcases h.finest with ⟨-, hexact⟩ | ⟨-, hlast⟩
  · rw [hexact, sub_self, abs_zero, zero_div]
    positivity
  · have hscale : p.2 = maxScale := by
      rcases hlast with hlast | hlarge
      · exact hlast
      · -- A digit more would not fit, although there is room for all.
        by_contra hne
        have hle : p.2 + 1 ≤ maxScale := by have := h.scale_le; omega
        have hgrow : v * 10 ^ (p.2 + 1) ≤ v * 10 ^ maxScale :=
          mul_le_mul_of_nonneg_left (pow_le_pow_right₀ (by norm_num) hle) hv
        linarith
    have hnear := h.near
    rw [hscale] at hnear ⊢
    exact div_le_div_of_nonneg_right hnear (ten_pow_pos maxScale).le

end Settled

/-- A quotient with room for all digits is off by at most half a unit of the last one. -/
theorem divNat?_near {a b : Decimal} {d : Nat} (hd : 0 < d) (hb : a.divNat? d = some b)
    (hroom : |a.toRat / d| * 10 ^ maxScale ≤ coefficientBound - 1) :
    |b.toRat - a.toRat / d| ≤ 1 / 2 / 10 ^ maxScale := by
  unfold divNat? at hb
  rw [if_neg hd.ne'] at hb
  split at hb
  · rename_i hzero
    cases hb
    rw [toRat_eq_zero_iff.2 hzero, toRat_zero, zero_div, sub_self, abs_zero]
    positivity
  · obtain ⟨p, j, hsettled, hj⟩ := quotient_settled a.num.natAbs a.scale d a.num_lt a.scale_le hd
    have hv : (0 : ℚ) ≤ a.num.natAbs / 10 ^ a.scale / d := by positivity
    have hvalue : a.toRat / d = signOf a.num * ((a.num.natAbs : ℚ) / 10 ^ a.scale / d) := by
      rw [← mul_div_assoc, ← mul_div_assoc, signOf_mul_natAbs, toRat]
    rw [hvalue, abs_mul, abs_signOf, one_mul, abs_of_nonneg hv] at hroom
    have hlt := hsettled.lt_of_room hv hroom
    have hten : 0 < tenTo j := by simp [tenTo, Nat.pow_eq]
    have hle : (quotient a.num.natAbs a.scale d).1 ≤ p.1 :=
      hj.1 ▸ Nat.le_mul_of_pos_right _ hten
    have hscale : (quotient a.num.natAbs a.scale d).2 ≤ maxScale := by
      have := hsettled.scale_le
      have := hj.2
      omega
    obtain ⟨b', hb', hval⟩ := hj.ofScaled? (by omega) hscale a.num
    obtain rfl : b' = b := Option.some.inj (hb'.symm.trans hb)
    rw [hval, hvalue, ← mul_sub, abs_mul, abs_signOf, one_mul]
    exact hsettled.near_of_room hv hroom

/-! ## Thousandths -/

/-- A number with at most `k` fraction digits. -/
def FractionDigits (k : Nat) (q : ℚ) : Prop := ∃ n : ℤ, q = n / 10 ^ k

theorem fractionDigits_of_scale_le {a : Decimal} {k : Nat} (h : a.scale ≤ k) :
    FractionDigits k a.toRat := by
  refine ⟨a.num * 10 ^ (k - a.scale), ?_⟩
  rw [toRat, div_eq_div_iff (ten_pow_pos _).ne' (ten_pow_pos _).ne']
  push_cast
  rw [mul_assoc, ← pow_add]
  congr 2; omega

/-- The thousandth of a decimal is a decimal when it needs no more digits than there are. -/
theorem representable_thousandth_iff (a : Decimal) :
    Representable (a.toRat / 1000) ↔ FractionDigits 25 a.toRat := by
  have hsplit : (10 : ℚ) ^ maxScale = 10 ^ 25 * 1000 := by norm_num [maxScale]
  constructor
  · rintro ⟨d, hd⟩
    obtain ⟨n, hn⟩ := fractionDigits_of_scale_le d.scale_le
    refine ⟨n, ?_⟩
    rw [hd, hsplit, ← div_div, div_left_inj' (by norm_num)] at hn
    exact hn
  · rintro ⟨n, hn⟩
    rcases le_or_gt a.scale 25 with hs | hs
    · refine ⟨⟨a.num, a.scale + 3, a.num_lt, by simp only [maxScale]; omega⟩, ?_⟩
      rw [toRat, toRat, pow_add, div_div]
      norm_num
    · -- The digits behind the 25th are zeros, so the coefficient only shrinks without them.
      have hnum : a.num = n * 10 ^ (a.scale - 25) := by
        rw [toRat, div_eq_div_iff (ten_pow_pos _).ne' (ten_pow_pos _).ne',
          show a.scale = (a.scale - 25) + 25 by omega, pow_add, ← mul_assoc,
          mul_left_inj' (ten_pow_pos _).ne'] at hn
        exact_mod_cast hn
      have hle : n.natAbs ≤ a.num.natAbs := by
        rw [hnum, Int.natAbs_mul]
        exact Nat.le_mul_of_pos_right _ (Int.natAbs_pos.2 (by positivity))
      refine ⟨⟨n, maxScale, Nat.lt_of_le_of_lt hle a.num_lt, Nat.le_refl _⟩, ?_⟩
      rw [hn, toRat, hsplit, ← div_div]

/-- A decimal stands for a thousandth of another one: exactly if that one has at most 25 fraction
digits, and to half a unit of the last digit in any case. -/
structure IsThousandth (a b : Decimal) : Prop where
  exact : b.toRat = a.toRat / 1000 ↔ FractionDigits 25 a.toRat
  near : |b.toRat - a.toRat / 1000| ≤ 1 / 2 / 10 ^ 28

/-- Every decimal can be divided by a thousand. -/
theorem divNat?_thousand (a : Decimal) : ∃ b, a.divNat? 1000 = some b ∧ IsThousandth a b := by
  obtain ⟨b, hb, hclose⟩ := a.divNat?_spec (d := 1000) (by decide)
  push_cast at hclose
  have hexact : b.toRat = a.toRat / 1000 ↔ FractionDigits 25 a.toRat := by
    rw [← representable_thousandth_iff]
    exact ⟨fun h => ⟨b, h⟩, hclose.exact⟩
  refine ⟨b, hb, hexact, ?_⟩
  rcases le_or_gt a.scale 25 with hs | hs
  · rw [hexact.2 (fractionDigits_of_scale_le hs), sub_self, abs_zero]
    positivity
  · have hroom : |a.toRat / (1000 : Nat)| * 10 ^ maxScale ≤ coefficientBound - 1 := by
      have hnum : |(a.num : ℚ)| ≤ coefficientBound - 1 := by
        have hlt : ((a.num.natAbs + 1 : Nat) : ℚ) ≤ coefficientBound := by exact_mod_cast a.num_lt
        rw [Nat.cast_add, Nat.cast_natAbs, Int.cast_abs, Nat.cast_one] at hlt
        linarith
      have hpow : (10 : ℚ) ^ maxScale ≤ 10 ^ a.scale * 1000 := by
        rw [show (1000 : ℚ) = 10 ^ 3 by norm_num, ← pow_add]
        exact pow_le_pow_right₀ (by norm_num) (by simp only [maxScale]; omega)
      have hpos : (0 : ℚ) < 10 ^ a.scale * 1000 := by positivity
      rw [toRat, Nat.cast_ofNat, div_div, abs_div, abs_of_pos hpos, div_mul_eq_mul_div,
        div_le_iff₀ hpos]
      calc |(a.num : ℚ)| * 10 ^ maxScale
          ≤ |(a.num : ℚ)| * (10 ^ a.scale * 1000) :=
            mul_le_mul_of_nonneg_left hpow (abs_nonneg _)
        _ ≤ (coefficientBound - 1) * (10 ^ a.scale * 1000) :=
            mul_le_mul_of_nonneg_right hnum hpos.le
    have hnear := divNat?_near (by decide) hb hroom
    rwa [Nat.cast_ofNat] at hnear

end HourlyPrices.Decimal
