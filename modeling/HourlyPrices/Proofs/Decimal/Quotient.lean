import HourlyPrices.Proofs.Decimal.Value

/-!
# Quotients

The long division of a decimal by a positive integer always ends with a decimal. It is exact if some
decimal stands for the quotient; otherwise it is off by at most half a unit of the last scale, or by
a relative error of `10 / 2 ^ 96` when the coefficient has no room for that many digits
(`divNat?_spec`).

The digits found so far are a coefficient `q` and a scale `s`, and what is left is a remainder `r`:
the invariant is `v * 10 ^ s = q + r / d` for the exact quotient `v`. What the division ends with is
stated by `Settled`.
-/

namespace HourlyPrices.Decimal

/-- The coefficient `p.1` at scale `p.2` stands for `v` with as many digits as there is room for:
exactly, or rounded to the nearest at a scale behind which there is no room. -/
structure Settled (v : ℚ) (p : Nat × Nat) : Prop where
  scale_le : p.2 ≤ maxScale
  size : p.1 < coefficientBound ∨ p.1 = coefficientBound ∧ 1 ≤ p.2
  near : |(p.1 : ℚ) - v * 10 ^ p.2| ≤ 1 / 2
  finest : (p.1 < coefficientBound ∧ (p.1 : ℚ) = v * 10 ^ p.2) ∨
    (∀ n : ℕ, v * 10 ^ p.2 ≠ n) ∧
      (p.2 = maxScale ∨ (coefficientBound : ℚ) ≤ v * 10 ^ (p.2 + 1))

/-- A quotient `v` is close to `w` as far as decimals allow it. -/
structure Close (v w : ℚ) : Prop where
  exact : Representable v → w = v
  error : |w - v| ≤ max (1 / 2 / 10 ^ maxScale) (|v| * 10 / coefficientBound)

/-! ## Room for digits -/

theorem headroom_spec {c s x : Nat} (h : headroom c s x ≠ 0) :
    c * tenTo (headroom c s x) < coefficientBound ∧ headroom c s x ≤ x := by
  induction x with
  | zero => exact absurd rfl h
  | succ x ih =>
    unfold headroom at h ⊢
    split
    · rename_i hc
      refine ⟨?_, Nat.le_refl _⟩
      have := (Nat.le_div_iff_mul_le (by simp [tenTo, Nat.pow_eq])).1 hc.1
      exact Nat.lt_of_le_of_lt this (by decide)
    · rename_i hc
      rw [if_neg hc] at h
      exact ⟨(ih h).1, by have := (ih h).2; omega⟩

/-- Without room the scale is the last one, or one more digit makes the coefficient too large. -/
theorem noRoom_of_headroom {c s x : Nat} (h : headroom c s (x + 1) = 0) (hs : s ≤ maxScale) :
    s = maxScale ∨ coefficientBound ≤ c * 10 := by
  induction x with
  | zero =>
    unfold headroom at h
    split at h
    · exact absurd h (by simp)
    · rename_i hc
      simp only [tenTo, Nat.pow_eq, coefficientBound, maxScale] at hc hs ⊢
      omega
  | succ x ih =>
    unfold headroom at h
    split at h
    · exact absurd h (by simp)
    · exact ih h

/-! ## Rounding at the end -/

theorem frac_nonneg (r d : Nat) : (0 : ℚ) ≤ r / d := by positivity

theorem frac_lt_one {r d : Nat} (h : r < d) : (r : ℚ) / d < 1 := by
  rw [div_lt_one (by exact_mod_cast (by omega : 0 < d))]
  exact_mod_cast h

theorem div_add_frac {d : Nat} (a : Nat) (hd : 0 < d) :
    ((a / d : Nat) : ℚ) + ((a % d : Nat) : ℚ) / d = a / d := by
  have hd' : (d : ℚ) ≠ 0 := by exact_mod_cast hd.ne'
  rw [eq_div_iff hd', add_mul, div_mul_cancel₀ _ hd']
  exact_mod_cast Nat.div_add_mod' a d

theorem not_natural {q : Nat} {f : ℚ} (h₀ : 0 < f) (h₁ : f < 1) (n : Nat) : (q : ℚ) + f ≠ n := by
  intro h
  have hlt : q < n := by exact_mod_cast (by linarith : (q : ℚ) < n)
  have hle : n < q + 1 := by exact_mod_cast (by push_cast; linarith : (n : ℚ) < (q + 1 : Nat))
  omega

/-- The remainder rounded into the last digit. -/
theorem near_roundLast {d q r : Nat} (hr : r < d) :
    |((if 2 * r < d then q else if d < 2 * r ∨ q % 2 = 1 then q + 1 else q : Nat) : ℚ) -
      (q + r / d)| ≤ 1 / 2 := by
  have hd : (0 : ℚ) < d := by exact_mod_cast (by omega : 0 < d)
  have h₀ := frac_nonneg r d
  have h₁ := frac_lt_one hr
  have hlow : 2 * r ≤ d → (r : ℚ) / d ≤ 1 / 2 := by
    intro h
    rw [div_le_div_iff₀ hd (by norm_num)]
    exact_mod_cast (by omega : r * 2 ≤ 1 * d)
  have hhigh : d ≤ 2 * r → 1 / 2 ≤ (r : ℚ) / d := by
    intro h
    rw [div_le_div_iff₀ (by norm_num) hd]
    exact_mod_cast (by omega : 1 * d ≤ r * 2)
  rw [abs_le]
  split
  · have := hlow (by omega)
    constructor <;> linarith
  · have := hhigh (by omega)
    split
    · push_cast
      constructor <;> linarith
    · have := hlow (by omega)
      constructor <;> linarith

/-- Giving up a digit rounds to the nearest. -/
theorem near_dropDigit {q : Nat} {f : ℚ} {more : Bool} (h₀ : 0 ≤ f) (h₁ : f < 1)
    (hmore : more = false → f = 0) :
    |(dropDigit q more : ℚ) - (q + f) / 10| ≤ 1 / 2 := by
  have hq : (q : ℚ) = 10 * (q / 10 : Nat) + (q % 10 : Nat) := by
    exact_mod_cast (Nat.div_add_mod q 10).symm
  have hup : 5 ≤ q % 10 → (5 : ℚ) ≤ (q % 10 : Nat) := fun h => by exact_mod_cast h
  have hdown : q % 10 ≤ 4 → ((q % 10 : Nat) : ℚ) ≤ 4 := fun h => by exact_mod_cast h
  have htop : ((q % 10 : Nat) : ℚ) ≤ 9 := by exact_mod_cast (by omega : q % 10 ≤ 9)
  have hlow : (0 : ℚ) ≤ (q % 10 : Nat) := by positivity
  simp only [dropDigit]
  rw [hq, abs_le]
  split
  · rename_i h
    have := hup (by omega)
    push_cast
    constructor <;> linarith
  · rename_i h
    push Not at h
    rcases Nat.lt_or_ge (q % 10) 5 with hlt | hge
    · have := hdown (by omega)
      constructor <;> linarith
    · have h5 : q % 10 = 5 := by omega
      have hf : f = 0 := hmore (by simpa using (h.2 h5).1)
      rw [h5, hf]
      push_cast
      constructor <;> linarith

/-- What is given up is nothing only if the last digit and the remainder are zero. -/
theorem not_natural_of_dropDigit {d q r : Nat} (hr : r < d) (h : ¬ (q % 10 = 0 ∧ r = 0)) (n : Nat) :
    ((q : ℚ) + r / d) / 10 ≠ n := by
  intro hn
  have hq : (q : ℚ) + r / d = (10 * n : Nat) := by
    rw [div_eq_iff (by norm_num)] at hn
    rw [hn]; push_cast; ring
  rcases Nat.eq_zero_or_pos r with rfl | hpos
  · have : q = 10 * n := by exact_mod_cast (by simpa using hq : (q : ℚ) = 10 * n)
    exact h ⟨by omega, rfl⟩
  · have hd : (0 : ℚ) < d := by exact_mod_cast Nat.zero_lt_of_lt hr
    exact not_natural (div_pos (by exact_mod_cast hpos) hd) (frac_lt_one hr) _ hq

theorem dropDigit_le (q : Nat) (more : Bool) : dropDigit q more ≤ q / 10 + 1 := by
  simp only [dropDigit]
  split <;> omega

/-! ## The division -/

/-- The invariant of the division: `q` and `r` stand for `v` at scale `s`, and the scale has room
for `q + 1` or for one digit less. -/
structure Dividing (d : Nat) (v : ℚ) (q r s : Nat) : Prop where
  remainder_lt : r < d
  fits : q < coefficientBound
  scale_le : s ≤ maxScale
  room : 1 ≤ s ∨ q + 1 < coefficientBound
  value : v * 10 ^ s = q + r / d

namespace Dividing

variable {d q r s k : Nat} {v : ℚ}

/-- The digits of the remainder behind the ones found so far. -/
theorem value_extend (h : Dividing d v q r s) (k : Nat) :
    v * 10 ^ (s + k) =
      ((q * tenTo k + r * tenTo k / d : Nat) : ℚ) + ((r * tenTo k % d : Nat) : ℚ) / d := by
  have hd : 0 < d := Nat.zero_lt_of_lt h.remainder_lt
  have htail := div_add_frac (r * tenTo k) hd
  rw [pow_add, ← mul_assoc, h.value, add_mul]
  push_cast [tenTo, Nat.pow_eq] at htail ⊢
  rw [add_assoc, htail, div_mul_eq_mul_div]

/-- More digits of the remainder, if the coefficient still fits. -/
theorem extend (h : Dividing d v q r s) (hk : k ≠ 0) (hs : s + k ≤ maxScale)
    (hfit : q * tenTo k + r * tenTo k / d < coefficientBound) :
    Dividing d v (q * tenTo k + r * tenTo k / d) (r * tenTo k % d) (s + k) where
  remainder_lt := Nat.mod_lt _ (Nat.zero_lt_of_lt h.remainder_lt)
  fits := hfit
  scale_le := hs
  room := .inl (by omega)
  value := h.value_extend k

/-- Nothing remains. -/
theorem settled_of_exact (h : Dividing d v q 0 s) : Settled v (q, s) := by
  have hv : (q : ℚ) = v * 10 ^ s := by rw [h.value]; simp
  exact ⟨h.scale_le, .inl h.fits, by simp [hv], .inl ⟨h.fits, hv⟩⟩

/-- Something remains, and there is no room for it. -/
theorem settled_of_full (h : Dividing d v q r s) (hr : r ≠ 0)
    (hfull : s = maxScale ∨ coefficientBound ≤ q * 10) :
    Settled v (if 2 * r < d then q else if d < 2 * r ∨ q % 2 = 1 then q + 1 else q, s) := by
  have hd : (0 : ℚ) < d := by exact_mod_cast Nat.zero_lt_of_lt h.remainder_lt
  have hpos : (0 : ℚ) < r / d := div_pos (by exact_mod_cast Nat.pos_of_ne_zero hr) hd
  refine ⟨h.scale_le, ?_, ?_, .inr ⟨?_, ?_⟩⟩
  · have hfits := h.fits
    have hroom := h.room
    have hstep : (if 2 * r < d then q else if d < 2 * r ∨ q % 2 = 1 then q + 1 else q) ≤ q + 1 := by
      split
      · omega
      · split <;> omega
    simp only
    omega
  · rw [h.value]
    exact near_roundLast h.remainder_lt
  · rw [h.value]
    exact not_natural hpos (frac_lt_one h.remainder_lt)
  · refine hfull.imp_right fun hq => ?_
    have hq' : (coefficientBound : ℚ) ≤ q * 10 := by exact_mod_cast hq
    rw [pow_succ, ← mul_assoc, h.value]
    linarith

/-- With the next digits the coefficient is too large, and the last of them is given up. -/
theorem settled_of_dropDigit (h : Dividing d v q r s) (hk : k ≠ 0) (hk9 : k ≤ stepDigits)
    (hs : s + k ≤ maxScale) (hfit : q * tenTo k < coefficientBound)
    (hlarge : coefficientBound ≤ q * tenTo k + r * tenTo k / d) :
    Settled v (dropDigit (q * tenTo k + r * tenTo k / d) (decide (r * tenTo k % d ≠ 0)),
      s + k - 1) := by
  have hd : 0 < d := Nat.zero_lt_of_lt h.remainder_lt
  have hvalue := h.value_extend k
  have htail : r * tenTo k / d < tenTo stepDigits := by
    have hmono : tenTo k ≤ tenTo stepDigits := Nat.pow_le_pow_right (by decide) hk9
    have hlt : r * tenTo k / d < tenTo k :=
      Nat.div_lt_of_lt_mul
        (Nat.mul_lt_mul_of_pos_right h.remainder_lt (by simp [tenTo, Nat.pow_eq]))
    omega
  generalize hq' : q * tenTo k + r * tenTo k / d = q' at hvalue hlarge ⊢
  generalize hr' : r * tenTo k % d = r' at hvalue ⊢
  have hr'd : r' < d := hr' ▸ Nat.mod_lt _ hd
  have hsmall : q' / 10 + 1 < coefficientBound := by
    have hten : tenTo stepDigits = 1000000000 := rfl
    simp only [coefficientBound] at hfit ⊢
    omega
  have hscale : v * 10 ^ (s + k - 1) = ((q' : ℚ) + r' / d) / 10 := by
    rw [← hvalue, eq_div_iff (by norm_num), mul_assoc, ← pow_succ]
    congr 2; omega
  refine ⟨by simp only; omega, .inl ?_, ?_, ?_⟩
  · exact Nat.lt_of_le_of_lt (dropDigit_le _ _) hsmall
  · rw [hscale]
    refine near_dropDigit (frac_nonneg r' d) (frac_lt_one hr'd) fun hm => ?_
    have : r' = 0 := by simpa using hm
    simp [this]
  · by_cases hexact : q' % 10 = 0 ∧ r' = 0
    · left
      obtain ⟨hdigit, rfl⟩ := hexact
      have hdrop : dropDigit q' (decide (0 ≠ 0)) = q' / 10 := by
        simp [dropDigit, hdigit]
      simp only [hdrop, hscale]
      refine ⟨by omega, ?_⟩
      rw [Nat.cast_div (Nat.dvd_of_mod_eq_zero hdigit) (by norm_num)]
      simp
    · right
      constructor
      · rw [hscale]
        exact not_natural_of_dropDigit hr'd hexact
      · right
        rw [show s + k - 1 + 1 = s + k by omega, hvalue]
        have := frac_nonneg r' d
        have hlarge' : (coefficientBound : ℚ) ≤ q' := by exact_mod_cast hlarge
        linarith

end Dividing

/-- Whatever has been divided so far, the division ends with a settled quotient. -/
theorem extendQuotient_settled {d q r s : Nat} {v : ℚ} (h : Dividing d v q r s) :
    Settled v (extendQuotient d q r s) := by
  fun_induction extendQuotient d q r s with
  | case1 q s => exact h.settled_of_exact
  | case2 q r s hr hroom =>
    exact h.settled_of_full hr (noRoom_of_headroom hroom h.scale_le)
  | case3 q r s hr hroom p q' hfit ih =>
    exact ih (h.extend hroom ((headroom_le q s stepDigits).resolve_left hroom) hfit)
  | case4 q r s hr hroom p q' hfit =>
    obtain ⟨hlt, hle⟩ := headroom_spec hroom
    exact h.settled_of_dropDigit hroom hle ((headroom_le q s stepDigits).resolve_left hroom) hlt
      (Nat.le_of_not_lt hfit)

/-! ## Zeros at the end -/

/-- Two coefficients at their scales that stand for the same number, where the first has `k` zeros
more. -/
def SameValue (k : Nat) (p p' : Nat × Nat) : Prop := p'.1 * tenTo k = p.1 ∧ p'.2 + k = p.2

theorem SameValue.trans {j k : Nat} {p p' p'' : Nat × Nat} (h : SameValue j p p')
    (h' : SameValue k p' p'') : SameValue (k + j) p p'' := by
  refine ⟨?_, by have := h.2; have := h'.2; omega⟩
  rw [← h.1, ← h'.1, Nat.mul_assoc]
  simp only [tenTo, Nat.pow_eq, Nat.pow_add]

theorem dropZeros_sameValue (k m : Nat) (p : Nat × Nat) :
    ∃ j, SameValue j p (dropZeros k m p) := by
  obtain ⟨c, s⟩ := p
  simp only [dropZeros]
  split
  · rename_i h
    exact ⟨k, Nat.div_mul_cancel (Nat.dvd_of_mod_eq_zero h.2.2), Nat.sub_add_cancel h.2.1⟩
  · exact ⟨0, by simp [SameValue, tenTo]⟩

theorem dropEightZeros_sameValue (c s : Nat) : ∃ j, SameValue j (c, s) (dropEightZeros c s) := by
  fun_induction dropEightZeros c s with
  | case1 c s h ih =>
    obtain ⟨j, hj⟩ := ih
    have h8 : SameValue 8 (c, s) (c / tenTo 8, s - 8) :=
      ⟨Nat.div_mul_cancel (Nat.dvd_of_mod_eq_zero h.2.2), Nat.sub_add_cancel h.2.1⟩
    exact ⟨j + 8, h8.trans hj⟩
  | case2 c s h => exact ⟨0, by simp [SameValue, tenTo]⟩

theorem shorten_sameValue (c s : Nat) : ∃ j, SameValue j (c, s) (shorten c s) := by
  obtain ⟨i, hi⟩ := dropEightZeros_sameValue c s
  obtain ⟨j, hj⟩ := dropZeros_sameValue 4 16 (dropEightZeros c s)
  obtain ⟨k, hk⟩ := dropZeros_sameValue 2 4 (dropZeros 4 16 (dropEightZeros c s))
  obtain ⟨l, hl⟩ := dropZeros_sameValue 1 2 (dropZeros 2 4 (dropZeros 4 16 (dropEightZeros c s)))
  exact ⟨_, ((hi.trans hj).trans hk).trans hl⟩

/-! ## From a settled quotient to a decimal -/

theorem Representable.neg {q : ℚ} (h : Representable q) : Representable (-q) := by
  obtain ⟨d, rfl⟩ := h
  exact ⟨⟨-d.num, d.scale, by simpa using d.num_lt, d.scale_le⟩, by simp [toRat, neg_div]⟩

theorem representable_signOf_mul {q : ℚ} (n : Int) :
    Representable (signOf n * q) ↔ Representable q := by
  unfold signOf
  split
  · rw [neg_one_mul]
    exact ⟨fun h => neg_neg q ▸ h.neg, Representable.neg⟩
  · rw [one_mul]

theorem representable_of_lt {c s : Nat} (hc : c < coefficientBound) (hs : s ≤ maxScale) :
    Representable ((c : ℚ) / 10 ^ s) :=
  ⟨⟨c, s, hc, hs⟩, by simp [toRat]⟩

theorem Close.signOf_mul {v w : ℚ} (h : Close v w) (n : Int) :
    Close (signOf n * v) (signOf n * w) where
  exact hr := by rw [h.exact ((representable_signOf_mul n).1 hr)]
  error := by
    rw [← mul_sub, abs_mul, abs_mul, abs_signOf, one_mul, one_mul]
    exact h.error

namespace Settled

variable {v : ℚ} {p : Nat × Nat}

/-- A number that some decimal stands for is settled exactly: were there digits behind the last
scale, they would not fit. -/
theorem eq_of_representable (h : Settled v p) (hv : 0 ≤ v) (hr : Representable v) :
    p.1 < coefficientBound ∧ (p.1 : ℚ) / 10 ^ p.2 = v := by
  rcases h.finest with ⟨hlt, he⟩ | ⟨hne, hfinest⟩
  · exact ⟨hlt, by rw [he, mul_div_cancel_right₀ _ (ten_pow_pos _).ne']⟩
  · exfalso
    obtain ⟨d, rfl⟩ := hr
    have hnum : (d.num.natAbs : ℚ) = d.toRat * 10 ^ d.scale := by
      have hpos : 0 ≤ d.num := by
        have := mul_nonneg hv (ten_pow_pos d.scale).le
        rw [toRat, div_mul_cancel₀ _ (ten_pow_pos _).ne'] at this
        exact_mod_cast this
      rw [toRat, div_mul_cancel₀ _ (ten_pow_pos _).ne', Nat.cast_natAbs, abs_of_nonneg hpos]
    rcases Nat.le_total d.scale p.2 with hle | hle
    · refine hne (d.num.natAbs * 10 ^ (p.2 - d.scale)) ?_
      push_cast
      rw [hnum, mul_assoc, ← pow_add]
      congr 2; omega
    · rcases hfinest with hmax | hlarge
      · have hs : p.2 = d.scale := by have := d.scale_le; omega
        exact hne d.num.natAbs (by rw [hnum, hs])
      · have hs : p.2 + 1 ≤ d.scale := by
          rcases Nat.lt_or_eq_of_le hle with hlt | he
          · exact hlt
          · exact absurd hnum.symm (he ▸ hne _)
        have hgrow : d.toRat * 10 ^ (p.2 + 1) ≤ d.toRat * 10 ^ d.scale :=
          mul_le_mul_of_nonneg_left (pow_le_pow_right₀ (by norm_num) hs) hv
        have hlt : (d.num.natAbs : ℚ) < coefficientBound := by exact_mod_cast d.num_lt
        linarith

/-- Half a unit of the last scale is small. -/
theorem half_unit_le (h : Settled v p) (hv : 0 ≤ v) (hne : (p.1 : ℚ) ≠ v * 10 ^ p.2) :
    1 / 2 / 10 ^ p.2 ≤ max (1 / 2 / 10 ^ maxScale) (|v| * 10 / coefficientBound) := by
  rcases h.finest with ⟨_, he⟩ | ⟨_, hmax | hlarge⟩
  · exact absurd he hne
  · rw [hmax]; exact le_max_left _ _
  · refine le_max_of_le_right ?_
    have hb : (0 : ℚ) < coefficientBound := by norm_num [coefficientBound]
    rw [abs_of_nonneg hv, div_le_div_iff₀ (ten_pow_pos _) hb]
    rw [pow_succ] at hlarge
    linarith

theorem close (h : Settled v p) (hv : 0 ≤ v) : Close v ((p.1 : ℚ) / 10 ^ p.2) where
  exact hr := (h.eq_of_representable hv hr).2
  error := by
    have hpow := ten_pow_pos p.2
    by_cases he : (p.1 : ℚ) = v * 10 ^ p.2
    · rw [he, mul_div_cancel_right₀ _ hpow.ne', sub_self, abs_zero]
      exact le_max_of_le_left (by positivity)
    · refine le_trans ?_ (h.half_unit_le hv he)
      have hsub : (p.1 : ℚ) / 10 ^ p.2 - v = (p.1 - v * 10 ^ p.2) / 10 ^ p.2 := by
        rw [sub_div, mul_div_cancel_right₀ _ hpow.ne']
      rw [hsub, abs_div, abs_of_pos hpow]
      exact div_le_div_of_nonneg_right h.near hpow.le

end Settled

/-! ## The decimal of a quotient -/

/-- The least coefficient that does not fit, rounded at the scale before. -/
def roundedBound : Nat := 7922816251426433759354395034

theorem fitAt_coefficientBound {s : Nat} (hs : 1 ≤ s) :
    fitAt coefficientBound s s = some (roundedBound, s - 1) := by
  obtain ⟨t, rfl⟩ := Nat.exists_eq_succ_of_ne_zero (Nat.one_le_iff_ne_zero.1 hs)
  have hself : roundHalfEven coefficientBound (tenTo 0) = coefficientBound := by decide
  have hnext : roundHalfEven coefficientBound (tenTo 1) = roundedBound := by decide
  have hlt : roundedBound < coefficientBound := by decide
  rw [fitAt]
  simp only [Nat.succ_eq_add_one, Nat.sub_self, hself, Nat.lt_irrefl, if_false]
  cases t with
  | zero => simp [fitAt, hnext, hlt]
  | succ t => simp [fitAt, hnext, hlt]

theorem signOf_withSignOf {n : Int} {c : Nat} (hc : 0 < c) :
    signOf (withSignOf n c) = signOf n := by
  unfold signOf withSignOf
  split
  · rw [if_pos (by omega)]
  · rw [if_neg (by omega)]

/-- A coefficient that has been rounded up to the bound is rounded once more. That is still close,
since the digit which is lost is the last of 29. -/
theorem Settled.close_roundedBound {v : ℚ} {s : Nat} (h : Settled v (coefficientBound, s))
    (hv : 0 ≤ v) (hs : 1 ≤ s) : Close v ((roundedBound : ℚ) / 10 ^ (s - 1)) where
  exact hr := absurd (h.eq_of_representable hv hr).1 (Nat.lt_irrefl _)
  error := by
    refine le_max_of_le_right ?_
    have hpow := ten_pow_pos s
    have hb : (0 : ℚ) < coefficientBound := by norm_num [coefficientBound]
    have hnear := abs_le.1 h.near
    have hscale : (roundedBound : ℚ) / 10 ^ (s - 1) = (roundedBound * 10) / 10 ^ s := by
      rw [div_eq_div_iff (ten_pow_pos _).ne' hpow.ne', mul_assoc, ← pow_succ']
      congr 2; omega
    have hsub : (roundedBound : ℚ) / 10 ^ (s - 1) - v =
        (roundedBound * 10 - v * 10 ^ s) / 10 ^ s := by
      rw [hscale, sub_div, mul_div_cancel_right₀ _ hpow.ne']
    have hlow : (0 : ℚ) ≤ roundedBound * 10 - v * 10 ^ s := by
      norm_num [roundedBound, coefficientBound] at hnear ⊢
      linarith
    rw [hsub, abs_div, abs_of_pos hpow, abs_of_nonneg hlow, abs_of_nonneg hv,
      div_le_div_iff₀ hpow hb]
    norm_num [roundedBound, coefficientBound] at hnear ⊢
    nlinarith

/-- A coefficient that fits makes the decimal that it stands for, whatever zeros have been taken
off. -/
theorem SameValue.ofScaled? {p p' : Nat × Nat} {j : Nat} (h : SameValue j p p')
    (hlt : p'.1 < coefficientBound) (hscale : p'.2 ≤ maxScale) (n : Int) :
    ∃ b, Decimal.ofScaled? (withSignOf n p'.1) p'.2 = some b ∧
      b.toRat = signOf n * ((p.1 : ℚ) / 10 ^ p.2) := by
  have hsame : (p'.1 : ℚ) / 10 ^ p'.2 = (p.1 : ℚ) / 10 ^ p.2 := by
    rw [← h.1, ← h.2, div_eq_div_iff (ten_pow_pos _).ne' (ten_pow_pos _).ne', pow_add]
    push_cast [tenTo, Nat.pow_eq]
    ring
  have hr : Representable ((withSignOf n p'.1 : Int) / 10 ^ p'.2 : ℚ) := by
    rw [cast_withSignOf, mul_div_assoc, representable_signOf_mul]
    exact representable_of_lt hlt hscale
  obtain ⟨b, hb, hval⟩ := ofScaled?_exact hr
  exact ⟨b, hb, by rw [hval, cast_withSignOf, mul_div_assoc, hsame]⟩

theorem Settled.ofScaled? {v : ℚ} {p p' : Nat × Nat} {j : Nat} (h : Settled v p) (hv : 0 ≤ v)
    (hp : SameValue j p p') (n : Int) :
    ∃ b, ofScaled? (withSignOf n p'.1) p'.2 = some b ∧ Close (signOf n * v) b.toRat := by
  have hten : 0 < tenTo j := by simp [tenTo, Nat.pow_eq]
  have hle : p'.1 ≤ p.1 := hp.1 ▸ Nat.le_mul_of_pos_right _ hten
  have hscale : p'.2 ≤ maxScale := by have := h.scale_le; have := hp.2; omega
  rcases Nat.lt_or_ge p'.1 coefficientBound with hlt | hge
  · obtain ⟨b, hb, hval⟩ := hp.ofScaled? hlt hscale n
    exact ⟨b, hb, hval ▸ (h.close hv).signOf_mul n⟩
  · -- The coefficient is the bound itself, and no zero has been taken off.
    have hsize := h.size
    have hbound : p.1 = coefficientBound ∧ 1 ≤ p.2 := by omega
    have hp1 : p'.1 = coefficientBound := by omega
    have hj : tenTo j = 1 := by
      have hmul := hp.1
      rw [hp1, hbound.1] at hmul
      exact Nat.eq_of_mul_eq_mul_left (by decide : 0 < coefficientBound) (by rw [hmul, Nat.mul_one])
    have hj0 : j = 0 := by
      rw [tenTo, Nat.pow_eq] at hj
      exact (Nat.pow_eq_one.1 hj).resolve_left (by decide)
    obtain ⟨c, s⟩ := p
    obtain ⟨rfl, hs⟩ : c = coefficientBound ∧ 1 ≤ s := hbound
    have hp2 : p'.2 = s := by simpa [hj0] using hp.2
    obtain ⟨b, hb, hval⟩ := ofParts?_withSignOf (n := withSignOf n coefficientBound)
      (by decide : roundedBound < coefficientBound) (by omega : s - 1 ≤ maxScale)
    refine ⟨b, ?_, ?_⟩
    · rw [hp1, hp2, Decimal.ofScaled?, natAbs_withSignOf, Nat.min_eq_left (hp2 ▸ hscale),
        fitAt_coefficientBound hs]
      exact hb
    · rw [hval, signOf_withSignOf (by decide)]
      exact (h.close_roundedBound hv hs).signOf_mul n

/-- The quotient of a coefficient, before its sign and its last rounding. -/
theorem quotient_settled (c s d : Nat) (hc : c < coefficientBound) (hs : s ≤ maxScale)
    (hd : 0 < d) :
    ∃ p j, Settled ((c : ℚ) / 10 ^ s / d) p ∧ SameValue j p (quotient c s d) := by
  have hpow := ten_pow_pos s
  have hd' : (d : ℚ) ≠ 0 := by exact_mod_cast hd.ne'
  have hvalue : (c : ℚ) / 10 ^ s / d * 10 ^ s = c / d := by
    rw [div_right_comm, div_mul_cancel₀ _ hpow.ne']
  unfold quotient
  split
  · rename_i h0
    have hdiv : ((c / d : Nat) : ℚ) = c / d := Nat.cast_div (Nat.dvd_of_mod_eq_zero h0) hd'
    have hfit : c / d < coefficientBound := Nat.lt_of_le_of_lt (Nat.div_le_self c d) hc
    refine ⟨(c / d, s), 0, ⟨hs, .inl hfit, ?_, .inl ⟨hfit, ?_⟩⟩, by simp [SameValue, tenTo]⟩
    · simp [hvalue, hdiv]
    · rw [hvalue, hdiv]
  · rename_i h0
    have hd2 : 2 ≤ d := by
      rcases Nat.lt_or_ge d 2 with hlt | hge
      · have : d = 1 := by omega
        subst this
        exact absurd (Nat.mod_one c) h0
      · exact hge
    have hhalf : c / d ≤ c / 2 := Nat.div_le_div_left hd2 (by decide)
    have hdividing : Dividing d ((c : ℚ) / 10 ^ s / d) (c / d) (c % d) s :=
      ⟨Nat.mod_lt c hd, by omega, hs, .inr (by simp only [coefficientBound] at hc ⊢; omega),
        by rw [hvalue, div_add_frac c hd]⟩
    obtain ⟨j, hj⟩ := shorten_sameValue (extendQuotient d (c / d) (c % d) s).1
      (extendQuotient d (c / d) (c % d) s).2
    exact ⟨_, j, extendQuotient_settled hdividing, hj⟩

/-- The division by a positive integer always gives a decimal, as close to the quotient as decimals
can be. -/
theorem divNat?_spec (a : Decimal) {d : Nat} (hd : 0 < d) :
    ∃ b, a.divNat? d = some b ∧ Close (a.toRat / d) b.toRat := by
  unfold divNat?
  rw [if_neg hd.ne']
  split
  · rename_i h0
    refine ⟨zero, rfl, ?_⟩
    rw [toRat_eq_zero_iff.2 h0, zero_div, toRat_zero]
    exact ⟨fun _ => rfl, by simp⟩
  · obtain ⟨p, j, hsettled, hj⟩ := quotient_settled a.num.natAbs a.scale d a.num_lt a.scale_le hd
    obtain ⟨b, hb, hclose⟩ := hsettled.ofScaled? (by positivity) hj a.num
    refine ⟨b, hb, ?_⟩
    have hvalue : a.toRat / d = signOf a.num * ((a.num.natAbs : ℚ) / 10 ^ a.scale / d) := by
      rw [← mul_div_assoc, ← mul_div_assoc, signOf_mul_natAbs, toRat]
    rw [hvalue]
    exact hclose

end HourlyPrices.Decimal
