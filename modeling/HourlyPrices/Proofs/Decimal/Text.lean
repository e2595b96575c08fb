import HourlyPrices.Proofs.Json.RoundTrip
import HourlyPrices.Decimal.Text

/-!
# Decimals of their own text

The text of a decimal is a JSON number (`Decimal.isNumber_toChars`), and it is read as that decimal,
with the same coefficient and the same scale (`Decimal.ofAnyText?_toText`): no digit is lost, since
the coefficient of no front part of the text exceeds the whole one.
-/

namespace HourlyPrices.Decimal

variable {cs rest : List Char} {n width : Nat}

/-! ## Digits -/

theorem isDigit_eq (c : Char) : Json.isDigit c = c.isDigit := by
  simp only [Json.isDigit, Char.isDigit, Char.le_def, ge_iff_le]

theorem digitValue?_of_isDigit {c : Char} (h : c.isDigit) :
    digitValue? c = some (c.toNat - '0'.toNat) := by
  rw [← isDigit_eq, Json.isDigit, Bool.and_eq_true, decide_eq_true_iff, decide_eq_true_iff] at h
  exact if_pos h

theorem isDigit_of_digitValue? {c : Char} (h : (digitValue? c).isSome) : c.isDigit := by
  unfold digitValue? at h
  split at h
  · rename_i hrange
    simpa [Char.isDigit, Char.le_def] using hrange
  · cases h

theorem isDigit_of_mem_paddedDigits {c : Char} (h : c ∈ paddedDigits width n) : c.isDigit := by
  rcases List.mem_append.1 h with h | h
  · rw [(List.mem_replicate.1 h).2]
    rfl
  · exact Nat.isDigit_of_mem_toDigits (by decide) (by decide) h

theorem ofDigitChars_paddedDigits (width n : Nat) :
    Nat.ofDigitChars 10 (paddedDigits width n) 0 = n := by
  rw [paddedDigits, Nat.ofDigitChars_append, Nat.ofDigitChars_replicate_zero, Nat.mul_zero,
    Nat.ofDigitChars_toDigits (by decide) (by decide)]

theorem length_paddedDigits (width n : Nat) :
    (paddedDigits width n).length = max width (Nat.toDigits 10 n).length := by
  simp only [paddedDigits, List.length_append, List.length_replicate]
  omega

theorem length_paddedDigits_of_lt (hwidth : 0 < width) (h : n < tenTo width) :
    (paddedDigits width n).length = width := by
  have := (Nat.length_toDigits_le_iff (by decide) hwidth).2 h
  rw [length_paddedDigits, Nat.max_eq_left this]

/-- Digits only add to the value of what stands before them. -/
theorem le_ofDigitChars (n : Nat) (cs : List Char) : n ≤ Nat.ofDigitChars 10 cs n := by
  induction cs generalizing n with
  | nil => exact Nat.le_refl n
  | cons c cs ih => exact Nat.le_trans (by omega) (ih (10 * n + (c.toNat - '0'.toNat)))

theorem head?_toDigits_ne_zero (h : 0 < n) : (Nat.toDigits 10 n).head? ≠ some '0' := by
  induction n using Nat.strongRecOn with
  | ind n ih =>
    rw [Nat.toDigits_eq_if (by decide)]
    split
    · rename_i hlt
      have : ∀ k < 10, 0 < k → k.digitChar ≠ '0' := by decide
      simpa using this n hlt h
    · rename_i hge
      have hhead := ih (n / 10) (by omega) (by omega)
      obtain ⟨d, ds, hds⟩ := List.exists_cons_of_ne_nil
        (show Nat.toDigits 10 (n / 10) ≠ [] from Nat.toDigits_ne_nil)
      rw [hds] at hhead ⊢
      exact hhead

theorem value_lt_of_isDigit {c : Char} (h : c.isDigit) : c.toNat - '0'.toNat < 10 := by
  have hle : c.toNat ≤ 57 := (Char.isDigit_iff_toNat.1 h).2
  have hzero : '0'.toNat = 48 := rfl
  omega

theorem toDigits_value {c : Char} (h : c.isDigit) :
    Nat.toDigits 10 (c.toNat - '0'.toNat) = [c] := by
  have hle : 48 ≤ c.toNat := (Char.isDigit_iff_toNat.1 h).1
  have hchar : ∀ n < 10, n.digitChar = Char.ofNat (48 + n) := by decide
  have hlt := value_lt_of_isDigit h
  rw [Nat.toDigits_of_lt_base hlt, hchar _ hlt, show '0'.toNat = 48 from rfl,
    Nat.add_sub_cancel' hle, Char.ofNat_toNat]

/-- Digits behind those of a positive number are the digits of the number they make. -/
theorem toDigits_append (hn : 0 < n) (h : ∀ c ∈ cs, c.isDigit) :
    Nat.toDigits 10 n ++ cs = Nat.toDigits 10 (Nat.ofDigitChars 10 cs n) := by
  induction cs generalizing n with
  | nil => exact List.append_nil _
  | cons c cs ih =>
    obtain ⟨hc, hcs⟩ := List.forall_mem_cons.1 h
    have hlt := value_lt_of_isDigit hc
    rw [Nat.ofDigitChars_cons, ← ih (by omega) hcs,
      ← Nat.toDigits_append_toDigits (by decide) hn hlt, toDigits_value hc, List.append_assoc,
      List.singleton_append]

/-- Digits are those of their value behind zeros. -/
theorem exists_leadingZeros (h : ∀ c ∈ cs, c.isDigit) (hn : 0 < Nat.ofDigitChars 10 cs 0) :
    ∃ zeros, cs = List.replicate zeros '0' ++ Nat.toDigits 10 (Nat.ofDigitChars 10 cs 0) := by
  induction cs with
  | nil => exact absurd hn (Nat.lt_irrefl 0)
  | cons c cs ih =>
    obtain ⟨hc, hcs⟩ := List.forall_mem_cons.1 h
    rw [Nat.ofDigitChars_cons, Nat.mul_zero, Nat.zero_add] at hn ⊢
    by_cases hzero : c.toNat - '0'.toNat = 0
    · obtain rfl : c = '0' := by
        have hdigits := toDigits_value hc
        rw [hzero] at hdigits
        exact (List.cons.inj hdigits).1.symm
      obtain ⟨zeros, heq⟩ := ih hcs hn
      exact ⟨zeros + 1, congrArg ('0' :: ·) heq⟩
    · refine ⟨0, ?_⟩
      rw [← toDigits_append (Nat.pos_of_ne_zero hzero) hcs, toDigits_value hc]
      rfl

/-- Only a number that has been filled up begins with a zero. -/
theorem length_of_head?_paddedDigits (hwidth : 0 < width)
    (h : (paddedDigits width n).head? = some '0') : (paddedDigits width n).length = width := by
  rw [length_paddedDigits]
  by_cases hshort : (Nat.toDigits 10 n).length ≤ width
  · exact Nat.max_eq_left hshort
  · have hpos : 0 < n := by
      rcases Nat.eq_zero_or_pos n with rfl | hn
      · exact absurd hwidth hshort
      · exact hn
    rw [paddedDigits, Nat.sub_eq_zero_of_le (by omega), List.replicate_zero, List.nil_append] at h
    exact absurd h (head?_toDigits_ne_zero hpos)

/-- The digits before the point of the text of a coefficient at a scale, and those behind it. -/
structure Digits (c scale : Nat) (front back : List Char) : Prop where
  text : magnitudeText c scale = front ++ if scale = 0 then [] else '.' :: back
  isDigit : ∀ d ∈ front ++ back, d.isDigit
  value : Nat.ofDigitChars 10 (front ++ back) 0 = c
  front_ne_nil : front ≠ []
  front_of_zero : front.head? = some '0' → front = ['0']
  length_back : back.length = scale

theorem exists_digits (c scale : Nat) : ∃ front back, Digits c scale front back := by
  by_cases hscale : scale = 0
  · refine ⟨Nat.toDigits 10 c, [], ?_⟩
    exact {
      text := by simp [magnitudeText, hscale]
      isDigit := fun d hd =>
        Nat.isDigit_of_mem_toDigits (b := 10) (by decide) (by decide) (by simpa using hd)
      value := by rw [List.append_nil, Nat.ofDigitChars_toDigits (by decide) (by decide)]
      front_ne_nil := Nat.toDigits_ne_nil
      front_of_zero := by
        intro hzero
        rcases Nat.eq_zero_or_pos c with rfl | hc
        · rfl
        · exact absurd hzero (head?_toDigits_ne_zero hc)
      length_back := hscale.symm }
  · let ds := paddedDigits (scale + 1) c
    have hlength : ds.length = max (scale + 1) (Nat.toDigits 10 c).length :=
      length_paddedDigits (scale + 1) c
    refine ⟨ds.take (ds.length - scale), ds.drop (ds.length - scale), ?_⟩
    exact {
      text := by simp only [magnitudeText, if_neg hscale]; rfl
      isDigit := by
        rw [List.take_append_drop]
        exact fun d hd => isDigit_of_mem_paddedDigits hd
      value := by rw [List.take_append_drop, ofDigitChars_paddedDigits]
      front_ne_nil := by
        rw [← List.length_pos_iff, List.length_take]
        omega
      front_of_zero := by
        intro hzero
        rw [List.head?_take, if_neg (by omega)] at hzero
        obtain ⟨ds', hds⟩ := List.head?_eq_some_iff.1 hzero
        rw [length_of_head?_paddedDigits (by omega) hzero,
          show scale + 1 - scale = 1 by omega, hds]
        rfl
      length_back := by
        rw [List.length_drop]
        omega }

/-! ## Reading digits -/

/-- Characters are read as a number, behind digits that have been read, if they are digits. -/
theorem foldl_digitValue?_eq_some_iff {m : Nat} :
    cs.foldl (fun acc c => acc.bind fun n => (digitValue? c).map (n * 10 + ·)) (some m) = some n ↔
      (∀ c ∈ cs, c.isDigit) ∧ Nat.ofDigitChars 10 cs m = n := by
  induction cs generalizing m with
  | nil => simp
  | cons c cs ih =>
    by_cases hc : c.isDigit
    · rw [List.foldl_cons, Option.bind_some, digitValue?_of_isDigit hc, Option.map_some, ih,
        List.forall_mem_cons, Nat.ofDigitChars_cons, Nat.mul_comm m 10]
      exact ⟨fun h => ⟨⟨hc, h.1⟩, h.2⟩, fun h => ⟨h.1.2, h.2⟩⟩
    · have hnone : digitValue? c = none :=
        Option.not_isSome_iff_eq_none.1 fun hsome => hc (isDigit_of_digitValue? hsome)
      have hfold : ∀ cs : List Char, cs.foldl
          (fun acc c => acc.bind fun n => (digitValue? c).map (n * 10 + ·)) none = none := by
        intro cs
        induction cs with
        | nil => rfl
        | cons c cs ih => exact ih
      rw [List.foldl_cons, Option.bind_some, hnone, Option.map_none, hfold]
      exact iff_of_false nofun fun h => hc (h.1 c List.mem_cons_self)

/-- The value of digits that a plus sign may precede. -/
theorem exponentValue?_eq_some_iff : exponentValue? cs = some n ↔
    ∃ sign ds, (sign = [] ∨ sign = ['+']) ∧ cs = sign ++ ds ∧ ds ≠ [] ∧ (∀ c ∈ ds, c.isDigit) ∧
      Nat.ofDigitChars 10 ds 0 = n := by
  have hdigits : ∀ ds : List Char,
      (if ds.isEmpty then none
        else ds.foldl (fun acc c => acc.bind fun n => (digitValue? c).map (n * 10 + ·)) (some 0)) =
          some n ↔ ds ≠ [] ∧ (∀ c ∈ ds, c.isDigit) ∧ Nat.ofDigitChars 10 ds 0 = n := by
    intro ds
    cases ds with
    | nil => simp
    | cons c ds => rw [if_neg (by simp), foldl_digitValue?_eq_some_iff]; simp
  simp only [exponentValue?]
  rw [hdigits]
  split
  · rename_i r
    constructor
    · exact fun h => ⟨['+'], r, .inr rfl, rfl, h⟩
    · rintro ⟨sign, ds, rfl | rfl, hcs, hne, hds, hvalue⟩
      · rw [List.nil_append] at hcs
        subst hcs
        exact absurd (hds '+' List.mem_cons_self) (by decide)
      · obtain rfl : r = ds := (List.cons.inj hcs).2
        exact ⟨hne, hds, hvalue⟩
  · rename_i hplus
    constructor
    · exact fun h => ⟨[], cs, .inl rfl, rfl, h⟩
    · rintro ⟨sign, ds, rfl | rfl, hcs, h⟩
      · rwa [hcs]
      · exact absurd hcs (hplus ds)

/-- Digits that fit are appended to what has been read. -/
theorem readMagnitude_digits {r : Reading} (hdigits : ∀ c ∈ cs, c.isDigit)
    (hfit : Nat.ofDigitChars 10 cs r.coeff < coefficientBound)
    (hscale : (r.fraction.map (· + cs.length)).getD 0 ≤ maxScale) (rest : List Char) :
    readMagnitude r (cs ++ rest) =
      readMagnitude ⟨Nat.ofDigitChars 10 cs r.coeff, r.fraction.map (· + cs.length),
        r.seen || !cs.isEmpty⟩ rest := by
  induction cs generalizing r with
  | nil => simp [Nat.ofDigitChars]
  | cons c cs ih =>
    obtain ⟨hc, hcs⟩ := List.forall_mem_cons.1 hdigits
    have hpoint : c ≠ '.' := by
      rintro rfl
      exact absurd hc (by decide)
    have hseparator : c ≠ '_' := by
      rintro rfl
      exact absurd hc (by decide)
    have hpush : (r.push (c.toNat - '0'.toNat)).coeff = 10 * r.coeff + (c.toNat - '0'.toNat) := by
      simp [Reading.push, Nat.mul_comm]
    -- The digits ahead only add to the coefficient, and so it fits already here.
    have hnext : (r.push (c.toNat - '0'.toNat)).coeff < coefficientBound :=
      Nat.lt_of_le_of_lt (hpush ▸ le_ofDigitChars _ cs) hfit
    have hnextScale : (r.push (c.toNat - '0'.toNat)).scale ≤ maxScale := by
      cases hr : r.fraction with
      | none => simp [Reading.push, Reading.scale, hr]
      | some k =>
        simp only [hr, Option.map_some, Option.getD_some, List.length_cons] at hscale
        simp only [Reading.push, Reading.scale, hr, Option.map_some, Option.getD_some]
        omega
    have hvalue : Nat.ofDigitChars 10 cs (r.push (c.toNat - '0'.toNat)).coeff =
        Nat.ofDigitChars 10 (c :: cs) r.coeff := by
      rw [hpush]
      rfl
    have hlength : ((r.push (c.toNat - '0'.toNat)).fraction.map (· + cs.length)) =
        r.fraction.map (· + (c :: cs).length) := by
      cases hr : r.fraction <;> simp [Reading.push, hr]
      omega
    have hrest := ih hcs (hvalue ▸ hfit) (hlength ▸ hscale)
    rw [hvalue, hlength] at hrest
    rw [List.cons_append, readMagnitude, if_neg hpoint, if_neg hseparator,
      digitValue?_of_isDigit hc]
    simp only [hnext, hnextScale, and_self, if_true, hrest]
    simp [Reading.push]

/-! ## Reading a decimal -/

theorem readMagnitude_magnitudeText {c scale : Nat} (hc : c < coefficientBound)
    (hscale : scale ≤ maxScale) : readMagnitude {} (magnitudeText c scale) = some (c, scale) := by
  obtain ⟨front, back, h⟩ := exists_digits c scale
  obtain ⟨hfront, hback⟩ := List.forall_mem_append.1 h.isDigit
  have hvalue := h.value
  rw [Nat.ofDigitChars_append] at hvalue
  have hfit : Nat.ofDigitChars 10 front 0 < coefficientBound :=
    Nat.lt_of_le_of_lt (hvalue ▸ le_ofDigitChars _ back) hc
  have hseen : (false || !front.isEmpty) = true := by simp [h.front_ne_nil]
  rw [h.text, readMagnitude_digits hfront hfit (Nat.zero_le _), hseen]
  split
  · rename_i hzero
    obtain rfl : back = [] := List.eq_nil_of_length_eq_zero (h.length_back.trans hzero)
    simpa [readMagnitude, Reading.scale, hzero] using hvalue
  · have hback' := readMagnitude_digits (r := ⟨Nat.ofDigitChars 10 front 0, some 0, true⟩) hback
      (hvalue ▸ hc) (by simpa [h.length_back] using hscale) []
    rw [List.append_nil] at hback'
    rw [readMagnitude, if_pos rfl]
    simp [hback', readMagnitude, Reading.scale, hvalue, h.length_back]

/-- The text of a coefficient at a scale begins with a digit. -/
theorem magnitudeText_cons (c scale : Nat) :
    ∃ d ds, magnitudeText c scale = d :: ds ∧ d.isDigit := by
  obtain ⟨front, back, h⟩ := exists_digits c scale
  obtain ⟨d, ds, rfl⟩ := List.exists_cons_of_ne_nil h.front_ne_nil
  exact ⟨d, _, h.text, h.isDigit d (by simp)⟩

/-- A text without a sign in front. -/
theorem splitSign_of_isDigit {c : Char} (h : c.isDigit) (cs : List Char) :
    splitSign (c :: cs) = (false, c :: cs) := by
  unfold splitSign
  split
  · rename_i heq
    rw [(List.cons.inj heq).1] at h
    exact absurd h (by decide)
  · rename_i heq
    rw [(List.cons.inj heq).1] at h
    exact absurd h (by decide)
  · rfl

theorem ofChars?_toChars (d : Decimal) : ofChars? d.toChars = some d := by
  have hparts : ofParts? d.num d.scale = some d := dif_pos ⟨d.num_lt, d.scale_le⟩
  have hread := readMagnitude_magnitudeText d.num_lt d.scale_le
  by_cases hneg : d.num < 0
  · have hnum : -(d.num.natAbs : Int) = d.num := by omega
    simp only [toChars, if_pos hneg, ofChars?, splitSign, hread, if_true, hnum, hparts]
  · obtain ⟨x, xs, htext, hx⟩ := magnitudeText_cons d.num.natAbs d.scale
    have hnum : (d.num.natAbs : Int) = d.num := by omega
    rw [htext] at hread
    simp only [toChars, if_neg hneg, htext, ofChars?, splitSign_of_isDigit hx, hread,
      Bool.false_eq_true, if_false, hnum, hparts]

/-- The text of a decimal is read as that decimal, digits and scale. -/
theorem ofAnyText?_toText (d : Decimal) : ofAnyText? d.toText = some d := by
  rw [ofAnyText?, toText, String.toList_ofList, ofAnyChars?, ofChars?_toChars]
  rfl

/-! ## JSON numbers -/

/-- What stands behind the digits before the point of a text. -/
theorem Digits.isFractionExponent {c scale : Nat} {front back : List Char}
    (h : Digits c scale front back) :
    Json.isFractionExponent (if scale = 0 then [] else '.' :: back) := by
  split
  · rfl
  · rename_i hscale
    have hne : back ≠ [] := by
      rintro rfl
      exact hscale h.length_back.symm
    have hback : ∀ d ∈ back, Json.isDigit d := fun d hd =>
      (isDigit_eq d).trans (h.isDigit d (List.mem_append_right front hd))
    have htake : (back ++ []).takeWhile Json.isDigit = back ++ [] :=
      List.takeWhile_append_of_pos hback
    have hdrop : (back ++ []).dropWhile Json.isDigit = [] := List.dropWhile_append_of_pos hback
    rw [List.append_nil] at htake hdrop
    simp [Json.isFractionExponent, htake, hdrop, hne, Json.isExponent]

theorem isNumber_magnitudeText (c scale : Nat) :
    Json.isNumber (magnitudeText c scale) ∧ Json.isNumber ('-' :: magnitudeText c scale) := by
  obtain ⟨front, back, h⟩ := exists_digits c scale
  have htail := h.isFractionExponent
  have hfront : ∀ d ∈ front, Json.isDigit d := fun d hd =>
    (isDigit_eq d).trans (h.isDigit d (List.mem_append_left back hd))
  obtain ⟨d, ds, rfl⟩ := List.exists_cons_of_ne_nil h.front_ne_nil
  rw [h.text]
  by_cases hzero : d = '0'
  · subst hzero
    obtain rfl : ds = [] := (List.cons.inj (h.front_of_zero rfl)).2
    exact ⟨htail, htail⟩
  · obtain ⟨hd, hds⟩ := List.forall_mem_cons.1 hfront
    have hsign : d ≠ '-' := by
      rintro rfl
      exact absurd hd (by decide)
    have hdrop : (ds ++ if scale = 0 then [] else '.' :: back).dropWhile Json.isDigit =
        if scale = 0 then [] else '.' :: back := by
      rw [List.dropWhile_append_of_pos hds]
      split <;> rfl
    simp [Json.isNumber, hsign, hd, hdrop, htail]

/-- The text of a decimal is a JSON number. -/
theorem isNumber_toChars (d : Decimal) : Json.isNumber d.toChars := by
  obtain ⟨hplain, hsigned⟩ := isNumber_magnitudeText d.num.natAbs d.scale
  by_cases hneg : d.num < 0
  · simpa only [toChars, if_pos hneg] using hsigned
  · simpa only [toChars, if_neg hneg] using hplain

end HourlyPrices.Decimal
