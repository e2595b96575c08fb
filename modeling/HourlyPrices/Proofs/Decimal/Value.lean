import HourlyPrices.Decimal.Basic
import Mathlib.Tactic

/-!
# The value of a decimal

The rational number that a decimal stands for. Sums and products are rounded only when they have to
be: one whose exact value is the value of some decimal is computed exactly (`add?_exact`,
`mul?_exact`). A product overflows only when it would be rounded to `2 ^ 96` or more
(`mul?_isSome_iff`).
-/

namespace HourlyPrices.Decimal

/-- The rational number that a decimal stands for. -/
def toRat (d : Decimal) : ℚ := d.num / 10 ^ d.scale

/-- A rational number that some decimal stands for. -/
def Representable (q : ℚ) : Prop := ∃ d : Decimal, d.toRat = q

@[simp] theorem toRat_zero : zero.toRat = 0 := by simp [toRat, zero]

theorem ten_pow_pos (k : Nat) : (0 : ℚ) < 10 ^ k := by positivity

theorem toRat_eq_zero_iff {d : Decimal} : d.toRat = 0 ↔ d.num = 0 := by
  simp [toRat, (ten_pow_pos d.scale).ne']

/-! ## Signs -/

/-- The sign of an integer, where zero counts as positive. -/
def signOf (n : Int) : ℚ := if n < 0 then -1 else 1

theorem signOf_mul_natAbs (n : Int) : signOf n * n.natAbs = n := by
  unfold signOf
  split
  · rw [Nat.cast_natAbs, abs_of_neg (by assumption)]; push_cast; ring
  · rw [Nat.cast_natAbs, abs_of_nonneg (by omega)]; ring

theorem cast_withSignOf (n : Int) (c : Nat) : (withSignOf n c : ℚ) = signOf n * c := by
  unfold withSignOf signOf
  split <;> simp

theorem abs_signOf (n : Int) : |signOf n| = 1 := by
  unfold signOf
  split <;> simp

theorem natAbs_withSignOf (n : Int) (c : Nat) : (withSignOf n c).natAbs = c := by
  unfold withSignOf
  split <;> simp

/-- Parts in range make a decimal. -/
theorem ofParts?_withSignOf {n : Int} {c t : Nat} (hc : c < coefficientBound) (ht : t ≤ maxScale) :
    ∃ d, ofParts? (withSignOf n c) t = some d ∧ d.toRat = signOf n * (c / 10 ^ t) := by
  have hn : (withSignOf n c).natAbs < coefficientBound := by rwa [natAbs_withSignOf]
  refine ⟨⟨withSignOf n c, t, hn, ht⟩, dif_pos ⟨hn, ht⟩, ?_⟩
  rw [toRat, cast_withSignOf, mul_div_assoc]

/-! ## Numbers that fit -/

theorem roundHalfEven_mul {d : Nat} (m : Nat) (hd : 0 < d) : roundHalfEven (m * d) d = m := by
  simp [roundHalfEven, Nat.mul_div_cancel _ hd, hd]

/-- A coefficient whose digits behind scale `k` are zeros keeps its value if it fits there. -/
theorem fitAt_exact {m k s t : Nat} (hm : m < coefficientBound) (hk : k ≤ t) (ht : t ≤ s) :
    ∃ u, k ≤ u ∧ u ≤ t ∧ m * tenTo (u - k) < coefficientBound ∧
      fitAt (m * tenTo (s - k)) s t = some (m * tenTo (u - k), u) := by
  have hround : ∀ u, k ≤ u → u ≤ s →
      roundHalfEven (m * tenTo (s - k)) (tenTo (s - u)) = m * tenTo (u - k) := by
    intro u hu hus
    have hsplit : tenTo (s - k) = tenTo (u - k) * tenTo (s - u) := by
      simp only [tenTo, Nat.pow_eq, ← Nat.pow_add]
      congr 1; omega
    rw [hsplit, ← Nat.mul_assoc]
    exact roundHalfEven_mul _ (by simp [tenTo, Nat.pow_eq])
  induction t with
  | zero =>
    have hk : k = 0 := by omega
    subst hk
    have h := hround 0 (Nat.le_refl _) (Nat.zero_le _)
    refine ⟨0, Nat.le_refl _, Nat.le_refl _, by simpa [tenTo] using hm, ?_⟩
    simp only [Nat.sub_zero] at h ⊢
    unfold fitAt
    rw [h, if_pos (by simpa [tenTo] using hm)]
  | succ t ih =>
    have h := hround (t + 1) hk ht
    unfold fitAt
    simp only [h]
    split
    · rename_i hfit
      exact ⟨t + 1, hk, Nat.le_refl _, hfit, rfl⟩
    · rename_i hfit
      rcases Nat.lt_or_ge t k with hlt | hle
      · have hk : k = t + 1 := by omega
        subst hk
        exact absurd (by simpa [tenTo] using hm) hfit
      · obtain ⟨u, hu, hut, hc, he⟩ := ih hle (by omega)
        exact ⟨u, hu, by omega, hc, he⟩

/-- A scaled integer whose value is that of some decimal has a coefficient that fits. -/
theorem exists_coefficient {n : Int} {s : Nat} (h : Representable (n / 10 ^ s)) :
    ∃ m k, m < coefficientBound ∧ k ≤ s ∧ k ≤ maxScale ∧ n.natAbs = m * tenTo (s - k) := by
  obtain ⟨d, hd⟩ := h
  have hcross : d.num.natAbs * 10 ^ s = n.natAbs * 10 ^ d.scale := by
    rw [toRat, div_eq_div_iff (ten_pow_pos _).ne' (ten_pow_pos _).ne'] at hd
    have hz : d.num * 10 ^ s = n * 10 ^ d.scale := by exact_mod_cast hd
    have := congrArg Int.natAbs hz
    simpa [Int.natAbs_mul, Int.natAbs_pow] using this
  rcases Nat.le_total d.scale s with hs | hs
  · refine ⟨d.num.natAbs, d.scale, d.num_lt, hs, d.scale_le, ?_⟩
    have hsplit : 10 ^ s = 10 ^ (s - d.scale) * 10 ^ d.scale := by
      rw [← Nat.pow_add]; congr 1; omega
    rw [hsplit, ← Nat.mul_assoc] at hcross
    exact (Nat.eq_of_mul_eq_mul_right (by positivity) hcross).symm
  · have hsplit : 10 ^ d.scale = 10 ^ (d.scale - s) * 10 ^ s := by
      rw [← Nat.pow_add]; congr 1; omega
    rw [hsplit, ← Nat.mul_assoc] at hcross
    have hnum := Nat.eq_of_mul_eq_mul_right (by positivity) hcross
    have hle : n.natAbs ≤ d.num.natAbs := hnum ▸ Nat.le_mul_of_pos_right _ (by positivity)
    exact ⟨n.natAbs, s, by have := d.num_lt; omega, Nat.le_refl _, hs.trans d.scale_le,
      by simp [tenTo]⟩

/-- A scaled integer is not rounded if its value is that of some decimal. -/
theorem ofScaled?_exact {n : Int} {s : Nat} (h : Representable (n / 10 ^ s)) :
    ∃ d, ofScaled? n s = some d ∧ d.toRat = n / 10 ^ s := by
  obtain ⟨m, k, hm, hks, hk, hn⟩ := exists_coefficient h
  obtain ⟨u, hku, hu, hfit, he⟩ :=
    fitAt_exact hm (Nat.le_min.2 ⟨hks, hk⟩) (Nat.min_le_left s maxScale)
  have hu' : u ≤ s ∧ u ≤ maxScale := Nat.le_min.1 hu
  obtain ⟨d, hd, hval⟩ := ofParts?_withSignOf (n := n) hfit hu'.2
  refine ⟨d, by rw [ofScaled?, hn, he]; exact hd, ?_⟩
  have hdigits : ((m * tenTo (u - k) : Nat) : ℚ) / 10 ^ u = (n.natAbs : ℚ) / 10 ^ s := by
    rw [hn, div_eq_div_iff (ten_pow_pos _).ne' (ten_pow_pos _).ne']
    simp only [tenTo, Nat.pow_eq]
    push_cast
    rw [mul_assoc, mul_assoc, ← pow_add, ← pow_add]
    congr 2; omega
  rw [hval, hdigits, ← mul_div_assoc, signOf_mul_natAbs]

/-! ## Sums and products -/

theorem toRat_eq_scaled (a : Decimal) {s : Nat} (hs : a.scale ≤ s) :
    a.toRat = ((a.num * tenTo (s - a.scale) : Int) : ℚ) / 10 ^ s := by
  rw [toRat, div_eq_div_iff (ten_pow_pos _).ne' (ten_pow_pos _).ne']
  simp only [tenTo, Nat.pow_eq]
  push_cast
  rw [mul_assoc, ← pow_add]
  congr 2; omega

theorem add_toRat (a b : Decimal) : a.toRat + b.toRat =
    ((a.num * tenTo (max a.scale b.scale - a.scale) +
      b.num * tenTo (max a.scale b.scale - b.scale) : Int) : ℚ) / 10 ^ max a.scale b.scale := by
  rw [toRat_eq_scaled a (Nat.le_max_left a.scale b.scale),
    toRat_eq_scaled b (Nat.le_max_right a.scale b.scale), ← add_div, ← Int.cast_add]

theorem mul_toRat (a b : Decimal) :
    a.toRat * b.toRat = ((a.num * b.num : Int) : ℚ) / 10 ^ (a.scale + b.scale) := by
  rw [toRat, toRat, div_mul_div_comm, ← pow_add, Int.cast_mul]

/-- A sum that is the value of some decimal is exact. -/
theorem add?_exact {a b : Decimal} (h : Representable (a.toRat + b.toRat)) :
    ∃ d, a.add? b = some d ∧ d.toRat = a.toRat + b.toRat := by
  unfold add?
  split
  · rename_i ha
    exact ⟨b, rfl, by rw [toRat_eq_zero_iff.2 ha, zero_add]⟩
  · split
    · rename_i hb
      exact ⟨a, rfl, by rw [toRat_eq_zero_iff.2 hb, add_zero]⟩
    · rw [add_toRat] at h ⊢
      exact ofScaled?_exact h

/-- A product that is the value of some decimal is exact. -/
theorem mul?_exact {a b : Decimal} (h : Representable (a.toRat * b.toRat)) :
    ∃ d, a.mul? b = some d ∧ d.toRat = a.toRat * b.toRat := by
  unfold mul?
  split
  · rename_i h0
    refine ⟨zero, rfl, ?_⟩
    rcases h0 with h0 | h0
    · rw [toRat_eq_zero_iff.2 h0, zero_mul, toRat_zero]
    · rw [toRat_eq_zero_iff.2 h0, mul_zero, toRat_zero]
  · rw [mul_toRat] at h ⊢
    exact ofScaled?_exact h

/-- An integer below the bound of coefficients is a decimal. -/
theorem ofInt?_exact {n : Int} (hn : n.natAbs < coefficientBound) :
    ∃ d, ofInt? n = some d ∧ d.toRat = n :=
  ⟨⟨n, 0, hn, Nat.zero_le _⟩, dif_pos ⟨hn, Nat.zero_le _⟩, by simp [toRat]⟩

/-! ## Numbers that are too large -/

/-- The nearest integer is below an even bound exactly when the quotient is by more than a half. -/
theorem roundHalfEven_lt_iff {c d m : Nat} (hd : 0 < d) (hm : m % 2 = 0) :
    roundHalfEven c d < m ↔ 2 * c + d < 2 * (m * d) := by
  have hc := Nat.div_add_mod' c d
  have hr := Nat.mod_lt c hd
  simp only [roundHalfEven]
  generalize c / d = q at hc ⊢
  generalize c % d = r at hc hr ⊢
  subst hc
  rcases Nat.lt_trichotomy (q + 1) m with hlt | rfl | hgt
  · have hmul : (q + 2) * d ≤ m * d := Nat.mul_le_mul_right d hlt
    rw [Nat.add_mul] at hmul
    refine iff_of_true ?_ (by omega)
    split
    · omega
    · split
      · omega
      · split <;> omega
  · -- The bound is even, so a half goes up to it.
    rw [Nat.add_mul]
    split
    · omega
    · split
      · omega
      · split <;> omega
  · have hmul : m * d ≤ q * d := Nat.mul_le_mul_right d (Nat.le_of_lt_succ hgt)
    refine iff_of_false ?_ (by omega)
    split
    · omega
    · split
      · omega
      · split <;> omega

/-- A coefficient can be rounded to fit exactly when it fits without fraction digits. -/
theorem fitAt_isSome_iff {c s t : Nat} (ht : t ≤ s) :
    (fitAt c s t).isSome ↔ roundHalfEven c (tenTo s) < coefficientBound := by
  have hpow : ∀ k, 0 < tenTo k := fun k => by simp [tenTo, Nat.pow_eq]
  induction t with
  | zero =>
    unfold fitAt
    dsimp only
    split
    · exact iff_of_true rfl ‹_›
    · exact iff_of_false (by simp) ‹_›
  | succ t ih =>
    unfold fitAt
    dsimp only
    split
    · rename_i hfit
      refine iff_of_true rfl ?_
      rw [roundHalfEven_lt_iff (hpow _) (by decide)] at hfit ⊢
      have hle : tenTo (s - (t + 1)) ≤ tenTo s := Nat.pow_le_pow_right (by decide) (Nat.sub_le ..)
      simp only [coefficientBound] at hfit ⊢
      omega
    · exact ih (by omega)

theorem fitAt_range {c s t : Nat} {p : Nat × Nat} (h : fitAt c s t = some p) :
    p.1 < coefficientBound ∧ p.2 ≤ t := by
  induction t with
  | zero =>
    unfold fitAt at h
    dsimp only at h
    split at h
    · cases h
      exact ⟨‹_›, Nat.le_refl _⟩
    · cases h
  | succ t ih =>
    unfold fitAt at h
    dsimp only at h
    split at h
    · cases h
      exact ⟨‹_›, Nat.le_refl _⟩
    · exact ⟨(ih h).1, Nat.le_succ_of_le (ih h).2⟩

/-- A scaled integer overflows exactly when its integral part does. -/
theorem ofScaled?_isSome_iff {n : Int} {s : Nat} :
    (ofScaled? n s).isSome ↔ |(n : ℚ) / 10 ^ s| < coefficientBound - 1 / 2 := by
  have hpow := ten_pow_pos s
  have hfit : (ofScaled? n s).isSome ↔ (fitAt n.natAbs s (min s maxScale)).isSome := by
    unfold ofScaled?
    cases h : fitAt n.natAbs s (min s maxScale) with
    | none => rfl
    | some p =>
      obtain ⟨hc, ht⟩ := fitAt_range h
      obtain ⟨d, hd, -⟩ := ofParts?_withSignOf (n := n) hc (ht.trans (Nat.min_le_right _ _))
      simp [hd]
  rw [hfit, fitAt_isSome_iff (Nat.min_le_left _ _),
    roundHalfEven_lt_iff (by simp [tenTo, Nat.pow_eq]) (by decide), abs_div, abs_of_pos hpow,
    div_lt_iff₀ hpow, ← @Nat.cast_lt ℚ]
  simp only [tenTo, Nat.pow_eq]
  push_cast [Nat.cast_natAbs]
  constructor <;> intro h <;> linarith

theorem mul?_isSome_iff {a b : Decimal} :
    (a.mul? b).isSome ↔ |a.toRat * b.toRat| < coefficientBound - 1 / 2 := by
  unfold mul?
  split
  · rename_i h0
    refine iff_of_true rfl ?_
    have hzero : a.toRat * b.toRat = 0 := by
      simpa [toRat_eq_zero_iff] using h0
    norm_num [hzero, coefficientBound]
  · rw [ofScaled?_isSome_iff, mul_toRat]

end HourlyPrices.Decimal
