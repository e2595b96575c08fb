import HourlyPrices.Proofs.Decimal.Quotient

/-!
# Sums and products as close as decimals can be

A sum or a product that is not out of range is as close to its exact value as a quotient is
(`add?_close`, `mul?_close`): a decimal is rounded to the nearest at the last scale, or at one where
a digit more would make the coefficient too large. How errors grow when rounded numbers are added,
multiplied and rounded again is told by `Within`.
-/

namespace HourlyPrices.Decimal

/-! ## Rounding once -/

theorem near_roundHalfEven (c : Nat) {d : Nat} (hd : 0 < d) :
    |(roundHalfEven c d : ℚ) - c / d| ≤ 1 / 2 := by
  have hround : roundHalfEven c d =
      if 2 * (c % d) < d then c / d
      else if d < 2 * (c % d) ∨ c / d % 2 = 1 then c / d + 1 else c / d := by
    unfold roundHalfEven
    dsimp only
    split_ifs <;> omega
  rw [hround, ← div_add_frac c hd]
  exact near_roundLast (Nat.mod_lt c hd)

/-- The scale is the first one from above at which the rounded coefficient fits. -/
theorem fitAt_spec {c s t : Nat} {p : Nat × Nat} (h : fitAt c s t = some p) :
    p.1 = roundHalfEven c (tenTo (s - p.2)) ∧
      (p.2 = t ∨ p.2 < t ∧ coefficientBound ≤ roundHalfEven c (tenTo (s - (p.2 + 1)))) := by
  induction t with
  | zero =>
    unfold fitAt at h
    dsimp only at h
    split at h
    · cases h
      exact ⟨rfl, .inl rfl⟩
    · cases h
  | succ t ih =>
    unfold fitAt at h
    dsimp only at h
    split at h
    · cases h
      exact ⟨rfl, .inl rfl⟩
    · rename_i hlarge
      obtain ⟨hcoeff, hscale⟩ := ih h
      refine ⟨hcoeff, .inr ?_⟩
      rcases hscale with hscale | ⟨hlt, hfinest⟩
      · exact ⟨by omega, hscale ▸ Nat.le_of_not_lt hlarge⟩
      · exact ⟨by omega, hfinest⟩

theorem near_scaled {c s u : Nat} (hu : u ≤ s) :
    |(roundHalfEven c (tenTo (s - u)) : ℚ) - c / 10 ^ s * 10 ^ u| ≤ 1 / 2 := by
  have hsplit : (c : ℚ) / 10 ^ s * 10 ^ u = c / (tenTo (s - u) : Nat) := by
    rw [div_mul_eq_mul_div, div_eq_div_iff (ten_pow_pos _).ne' (by simp [tenTo, Nat.pow_eq])]
    simp only [tenTo, Nat.pow_eq]
    push_cast
    rw [mul_assoc, ← pow_add]
    congr 2; omega
  rw [hsplit]
  exact near_roundHalfEven c (by simp [tenTo, Nat.pow_eq])

/-- A number that is rounded once is off by no more than decimals have to be. -/
theorem fitAt_error {c s : Nat} {p : Nat × Nat} (h : fitAt c s (min s maxScale) = some p) :
    |(p.1 : ℚ) / 10 ^ p.2 - c / 10 ^ s| ≤
      max (1 / 2 / 10 ^ maxScale) (|(c : ℚ) / 10 ^ s| * 10 / coefficientBound) := by
  obtain ⟨hcoeff, hscale⟩ := fitAt_spec h
  have hle := (fitAt_range h).2
  have hpow := ten_pow_pos p.2
  have hb : (0 : ℚ) < coefficientBound := by norm_num [coefficientBound]
  have hv : (0 : ℚ) ≤ c / 10 ^ s := by positivity
  have hnear : |(p.1 : ℚ) / 10 ^ p.2 - c / 10 ^ s| ≤ 1 / 2 / 10 ^ p.2 := by
    have hsub : (p.1 : ℚ) / 10 ^ p.2 - c / 10 ^ s = (p.1 - c / 10 ^ s * 10 ^ p.2) / 10 ^ p.2 := by
      rw [sub_div, mul_div_cancel_right₀ _ hpow.ne']
    rw [hsub, abs_div, abs_of_pos hpow, hcoeff]
    exact div_le_div_of_nonneg_right (near_scaled (by omega)) hpow.le
  rcases hscale with hlast | ⟨hlt, hfinest⟩
  · rcases Nat.le_total s maxScale with hs | hs
    · -- No digit is given up.
      rw [Nat.min_eq_left hs] at hlast
      have hself : roundHalfEven c (tenTo (s - s)) = c := by
        simpa [tenTo] using roundHalfEven_mul c Nat.one_pos
      rw [hcoeff, hlast, hself, sub_self, abs_zero]
      exact le_max_of_le_left (by positivity)
    · rw [Nat.min_eq_right hs] at hlast
      exact le_max_of_le_left (hlast ▸ hnear)
  · refine le_max_of_le_right (hnear.trans ?_)
    have hmore := (abs_le.1 (near_scaled (c := c) (by omega : p.2 + 1 ≤ s))).2
    have hbound : (coefficientBound : ℚ) ≤
        (roundHalfEven c (tenTo (s - (p.2 + 1))) : Nat) := by exact_mod_cast hfinest
    have hone : (1 : ℚ) ≤ coefficientBound := by norm_num [coefficientBound]
    rw [abs_of_nonneg hv, div_le_div_iff₀ hpow hb]
    rw [pow_succ] at hmore
    linarith

/-- A scaled integer in range is rounded as closely as decimals allow it. -/
theorem ofScaled?_close {n : Int} {s : Nat} {d : Decimal} (h : ofScaled? n s = some d) :
    Close (n / 10 ^ s) d.toRat where
  exact hr := by
    obtain ⟨d', hd', hval⟩ := ofScaled?_exact hr
    rw [← hval, Option.some.inj (h.symm.trans hd')]
  error := by
    unfold ofScaled? at h
    cases hfit : fitAt n.natAbs s (min s maxScale) with
    | none => simp [hfit] at h
    | some p =>
      obtain ⟨hlt, hle⟩ := fitAt_range hfit
      obtain ⟨d', hd', hval⟩ :=
        ofParts?_withSignOf (n := n) hlt (hle.trans (Nat.min_le_right _ _))
      simp only [hfit] at h
      obtain rfl := Option.some.inj (h.symm.trans hd')
      have herror := fitAt_error hfit
      rw [hval, ← signOf_mul_natAbs n, mul_div_assoc, ← mul_sub, abs_mul, abs_mul, abs_signOf,
        one_mul, one_mul]
      exact herror

theorem Close.refl (v : ℚ) : Close v v where
  exact _ := rfl
  error := by
    rw [sub_self, abs_zero]
    exact le_max_of_le_left (by positivity)

theorem add?_close {a b d : Decimal} (h : a.add? b = some d) :
    Close (a.toRat + b.toRat) d.toRat := by
  unfold add? at h
  split at h
  · rename_i ha
    obtain rfl := Option.some.inj h
    rw [toRat_eq_zero_iff.2 ha, zero_add]
    exact .refl _
  · split at h
    · rename_i hb
      obtain rfl := Option.some.inj h
      rw [toRat_eq_zero_iff.2 hb, add_zero]
      exact .refl _
    · rw [add_toRat]
      exact ofScaled?_close h

theorem mul?_close {a b d : Decimal} (h : a.mul? b = some d) :
    Close (a.toRat * b.toRat) d.toRat := by
  unfold mul? at h
  split at h
  · rename_i hzero
    have hv : a.toRat * b.toRat = 0 := by
      simpa [toRat_eq_zero_iff] using hzero
    obtain rfl := Option.some.inj h
    rw [hv, toRat_zero]
    exact .refl _
  · rw [mul_toRat]
    exact ofScaled?_close h

/-! ## Rounding again and again -/

/-- Half a unit of the last scale, by which a small result may be off. -/
def lastHalf : ℚ := 1 / 2 / 10 ^ maxScale

/-- The factor by which a large result may be off, since its coefficient has no room for more
digits. -/
def growth : ℚ := 1 + 10 / coefficientBound

theorem lastHalf_pos : 0 < lastHalf := by norm_num [lastHalf]

theorem one_le_growth : 1 ≤ growth := by norm_num [growth, coefficientBound]

/-- The number `w` stands for `v`, which is at most `m` in size. Roundings on the way may have made
`m` grow up to `g`, and `w` is off by no more than that. -/
structure Within (v w m g : ℚ) : Prop where
  size : |v| ≤ m
  error : |w - v| ≤ g - m

namespace Within

variable {v w v' w' m g m' g' : ℚ}

theorem refl (v : ℚ) : Within v v |v| |v| := ⟨le_refl _, by simp⟩

theorem mono (h : Within v w m g) (hg : g ≤ g') : Within v w m g' :=
  ⟨h.size, h.error.trans (by linarith)⟩

/-- Rounding once more. -/
theorem round (h : Within v w m g) (hc : Close w w') : Within v w' m (growth * g + lastHalf) where
  size := h.size
  error := by
    have hw : |w| ≤ g := by
      have := abs_add_le v (w - v)
      rw [add_sub_cancel] at this
      linarith [h.size, h.error]
    have hb : (0 : ℚ) < coefficientBound := by norm_num [coefficientBound]
    have hround : |w' - w| ≤ lastHalf + g * (10 / coefficientBound) := by
      have hlarge : |w| * 10 / coefficientBound ≤ g * (10 / coefficientBound) := by
        rw [mul_div_assoc]
        exact mul_le_mul_of_nonneg_right hw (by positivity)
      refine hc.error.trans (max_le ?_ ?_)
      · exact le_add_of_nonneg_right (mul_nonneg ((abs_nonneg w).trans hw) (by positivity))
      · exact hlarge.trans (le_add_of_nonneg_left lastHalf_pos.le)
    calc |w' - v| ≤ |w' - w| + |w - v| := abs_sub_le _ _ _
      _ ≤ (lastHalf + g * (10 / coefficientBound)) + (g - m) := add_le_add hround h.error
      _ = growth * g + lastHalf - m := by rw [growth]; ring

theorem add (h : Within v w m g) (h' : Within v' w' m' g') :
    Within (v + v') (w + w') (m + m') (g + g') where
  size := (abs_add_le _ _).trans (add_le_add h.size h'.size)
  error := by
    have := (abs_add_le (w - v) (w' - v')).trans (add_le_add h.error h'.error)
    rw [add_sub_add_comm, add_sub_add_comm]
    exact this

theorem mul_right (h : Within v w m g) (c : ℚ) :
    Within (v * c) (w * c) (m * |c|) (g * |c|) where
  size := by
    rw [abs_mul]
    exact mul_le_mul_of_nonneg_right h.size (abs_nonneg c)
  error := by
    rw [← sub_mul, ← sub_mul, abs_mul]
    exact mul_le_mul_of_nonneg_right h.error (abs_nonneg c)

end Within

end HourlyPrices.Decimal
