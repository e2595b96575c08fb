import HourlyPrices.Gln
import HourlyPrices.Proofs.Decimal.Text
import Mathlib.Logic.ExistsUnique

/-!
# Check digits

A valid number is a text of thirteen digits with a control sum that ends in zero
(`Gln.isValid_iff`). A digit counts once or three times in that sum, and both are prime to ten.
Hence a digit that is mistaken for another changes the end of the sum, and exactly one digit
completes the twelve before it (`Gln.isValid_guards_digits`).
-/

namespace HourlyPrices.Gln

variable {c : Char} {cs body : List Char} {g : Gln}

/-! ## Bytes and digits -/

/-- The value of a digit. -/
def digitValue (c : Char) : Nat := c.toNat - '0'.toNat

theorem digitValue_lt (h : c.isDigit) : digitValue c < 10 := Decimal.value_lt_of_isDigit h

theorem digitValue_injective {d : Char} (hc : c.isDigit) (hd : d.isDigit)
    (h : digitValue c = digitValue d) : c = d := by
  have hdigits := congrArg (Nat.toDigits 10) h
  rwa [digitValue, digitValue, Decimal.toDigits_value hc, Decimal.toDigits_value hd,
    List.singleton_inj] at hdigits

theorem digits_of_isDigit (h : ∀ c ∈ cs, c.isDigit) : digits cs = cs.map digitValue := by
  induction cs with
  | nil => rfl
  | cons c cs ih =>
    obtain ⟨hc, hcs⟩ := List.forall_mem_cons.1 h
    rw [digits, List.filterMap_cons_some (Decimal.digitValue?_of_isDigit hc), ← digits, ih hcs]
    rfl

theorem utf8ByteSize_cons (c : Char) (cs : List Char) :
    (String.ofList (c :: cs)).utf8ByteSize = c.utf8Size + (String.ofList cs).utf8ByteSize := by
  rw [← List.singleton_append, String.ofList_append, String.utf8ByteSize_append,
    ← String.singleton_eq_ofList, String.utf8ByteSize_singleton]

theorem length_le_utf8ByteSize (cs : List Char) :
    cs.length ≤ (String.ofList cs).utf8ByteSize := by
  induction cs with
  | nil => exact Nat.zero_le _
  | cons c cs ih =>
    have hpos := c.utf8Size_pos
    rw [utf8ByteSize_cons, List.length_cons]
    omega

theorem utf8ByteSize_of_isDigit (h : ∀ c ∈ cs, c.isDigit) :
    (String.ofList cs).utf8ByteSize = cs.length := by
  induction cs with
  | nil => rfl
  | cons c cs ih =>
    obtain ⟨hc, hcs⟩ := List.forall_mem_cons.1 h
    have hone : c.utf8Size = 1 := by
      refine Char.utf8Size_eq_one_iff.2 (UInt32.le_iff_toNat_le.2 ?_)
      exact Nat.le_trans (Char.isDigit_iff_toNat.1 hc).2 (by decide)
    rw [utf8ByteSize_cons, ih hcs, hone, List.length_cons, Nat.add_comm]

/-- As many bytes as digits leave no room for another character. -/
theorem bytes_and_digits_iff (cs : List Char) (n : Nat) :
    ((String.ofList cs).utf8ByteSize = n ∧ (digits cs).length = n) ↔
      cs.length = n ∧ ∀ c ∈ cs, c.isDigit := by
  constructor
  · rintro ⟨hbytes, hdigits⟩
    have hle := length_le_utf8ByteSize cs
    have hall : (digits cs).length = cs.length :=
      Nat.le_antisymm (List.length_filterMap_le _ _) (by omega)
    have hsome := List.filterMap_length_eq_length.1 hall
    exact ⟨by omega, fun c hc => Decimal.isDigit_of_digitValue? (hsome c hc)⟩
  · rintro ⟨hlength, hdigit⟩
    exact ⟨(utf8ByteSize_of_isDigit hdigit).trans hlength, by
      rw [digits_of_isDigit hdigit, List.length_map, hlength]⟩

/-! ## The control sum -/

/-- The sum of all digits, weighted by 1 and 3 in turn, beginning with the last. -/
def controlSum (ds : List Nat) : Nat :=
  match ds.reverse with
  | [] => 0
  | d :: body => d + weightedSum body

theorem controlSum_concat (body : List Nat) (d : Nat) :
    controlSum (body ++ [d]) = d + weightedSum body.reverse := by
  simp [controlSum]

/-- The check digit is the one that ends the control sum in zero. -/
theorem eq_checkDigit_iff {d : Nat} (h : d < 10) (body : List Nat) :
    d = checkDigit body ↔ controlSum (body ++ [d]) % 10 = 0 := by
  rw [controlSum_concat, checkDigit]
  omega

/-- A digit counts once or three times, whatever it is. -/
theorem exists_weight_weightedSum (before after : List Nat) :
    ∃ w r, (w = 1 ∨ w = 3) ∧ ∀ d, weightedSum (before ++ d :: after) = w * d + r := by
  fun_induction weightedSum before with
  | case1 =>
    cases after with
    | nil => exact ⟨3, 0, .inr rfl, fun d => rfl⟩
    | cons e es =>
      exact ⟨3, e + weightedSum es, .inr rfl, fun d => Nat.add_assoc _ _ _⟩
  | case2 b =>
    refine ⟨1, 3 * b + weightedSum after, .inl rfl, fun d => ?_⟩
    rw [List.singleton_append, weightedSum]
    omega
  | case3 b b' bs ih =>
    obtain ⟨w, r, hw, hsum⟩ := ih
    refine ⟨w, 3 * b + b' + r, hw, fun d => ?_⟩
    rw [List.cons_append, List.cons_append, weightedSum, hsum]
    omega

theorem exists_weight (before after : List Nat) :
    ∃ w r, (w = 1 ∨ w = 3) ∧ ∀ d, controlSum (before ++ d :: after) = w * d + r := by
  have hreverse : ∀ d, (before ++ d :: after).reverse = after.reverse ++ d :: before.reverse := by
    simp
  simp only [controlSum, hreverse]
  cases after.reverse with
  | nil => exact ⟨1, weightedSum before.reverse, .inl rfl, fun d => by simp⟩
  | cons e es =>
    obtain ⟨w, r, hw, hsum⟩ := exists_weight_weightedSum es before.reverse
    refine ⟨w, e + r, hw, fun d => ?_⟩
    simp only [List.cons_append, hsum]
    omega

/-- No two digits at the same place give sums with the same end. -/
theorem eq_of_controlSum {before after : List Nat} {d e : Nat} (hd : d < 10) (he : e < 10)
    (h : controlSum (before ++ d :: after) % 10 = controlSum (before ++ e :: after) % 10) :
    d = e := by
  obtain ⟨w, r, hw, hsum⟩ := exists_weight before after
  rw [hsum, hsum] at h
  rcases hw with rfl | rfl <;> omega

/-! ## Valid numbers -/

/-- A valid number is a text of thirteen digits with a control sum that ends in zero. -/
theorem isValid_iff : g.isValid ↔ g.text.toList.length = digitCount ∧
    (∀ c ∈ g.text.toList, c.isDigit) ∧ controlSum (g.text.toList.map digitValue) % 10 = 0 := by
  have hbytes := bytes_and_digits_iff g.text.toList digitCount
  rw [String.ofList_toList] at hbytes
  simp only [isValid, Bool.and_eq_true, beq_iff_eq]
  rw [hbytes, and_assoc]
  refine and_congr_right fun hlength => and_congr_right fun hdigit => ?_
  obtain ⟨body, c, hcs⟩ : ∃ body c, g.text.toList = body ++ [c] := by
    refine ⟨_, _, (List.dropLast_concat_getLast (l := g.text.toList) ?_).symm⟩
    rintro hnil
    simp [hnil, digitCount] at hlength
  have hc : c.isDigit := hdigit c (by simp [hcs])
  rw [digits_of_isDigit hdigit, hcs, List.map_append, List.map_singleton, List.getLast?_concat,
    List.dropLast_concat, Option.some_inj]
  exact eq_checkDigit_iff (digitValue_lt hc) _

/-- A text that differs from another in one digit. -/
inductive Mistyped : List Char → List Char → Prop
  | intro (before after : List Char) {c d : Char} (hc : c.isDigit) (hd : d.isDigit) (hne : d ≠ c) :
    Mistyped (before ++ c :: after) (before ++ d :: after)

theorem Mistyped.trimChars {cs ds : List Char} (h : Mistyped cs ds) :
    Mistyped (Text.trimChars cs) (Text.trimChars ds) := by
  obtain ⟨before, after, hc, hd, hne⟩ := h
  rw [Text.trimChars_append_cons (Text.isBlank_of_isDigit hc),
    Text.trimChars_append_cons (Text.isBlank_of_isDigit hd)]
  exact .intro _ _ hc hd hne

/-- A valid number with one digit mistaken for another is not valid. -/
theorem not_isValid_of_mistyped {g' : Gln} (hg : g.isValid)
    (h : Mistyped g.text.toList g'.text.toList) : ¬ g'.isValid := by
  intro hg'
  obtain ⟨-, -, hsum⟩ := isValid_iff.1 hg
  obtain ⟨-, -, hsum'⟩ := isValid_iff.1 hg'
  generalize g.text.toList = cs at h hsum
  generalize g'.text.toList = ds at h hsum'
  obtain ⟨before, after, hc, hd, hne⟩ := h
  rw [List.map_append, List.map_cons] at hsum hsum'
  exact hne (digitValue_injective hd hc (eq_of_controlSum (digitValue_lt hd) (digitValue_lt hc)
    (hsum'.trans hsum.symm)))

theorem isValid_concat_iff (hlength : body.length + 1 = digitCount) (hbody : ∀ c ∈ body, c.isDigit)
    (hc : c.isDigit) : (ofText (.ofList (body ++ [c]))).isValid ↔
      digitValue c = checkDigit (body.map digitValue) := by
  have hdigit : ∀ d ∈ body ++ [c], d.isDigit :=
    List.forall_mem_append.2 ⟨hbody, by simpa using hc⟩
  have htrim : (ofText (.ofList (body ++ [c]))).text.toList = body ++ [c] := by
    rw [ofText, Text.trim, String.toList_ofList, String.toList_ofList,
      Text.trimChars_eq_self fun d hd => Text.isBlank_of_isDigit (hdigit d hd)]
  rw [isValid_iff, htrim, eq_checkDigit_iff (digitValue_lt hc), List.map_append, List.map_singleton,
    List.length_append, List.length_singleton]
  exact ⟨fun h => h.2.2, fun h => ⟨hlength, hdigit, h⟩⟩

/-- A number is valid only if its text, less surrounding blanks, is thirteen digits. No digit of it
can be mistaken for another without notice, and for every twelve digits there is exactly one that
completes them. -/
theorem isValid_guards_digits :
    (∀ s, (ofText s).isValid →
      (Text.trim s).length = 13 ∧ ∀ c ∈ (Text.trim s).toList, c.isDigit) ∧
    (∀ s s' : String, (ofText s).isValid → Mistyped s.toList s'.toList → ¬ (ofText s').isValid) ∧
    (∀ body : List Char, body.length = 12 → (∀ c ∈ body, c.isDigit) →
      ∃! c, c.isDigit ∧ (ofText (.ofList (body ++ [c]))).isValid) := by
  refine ⟨fun s hs => ?_, fun s s' hs h => ?_, fun body hlength hbody => ?_⟩
  · obtain ⟨hlength, hdigit, -⟩ := isValid_iff.1 hs
    exact ⟨String.length_toList.symm.trans hlength, hdigit⟩
  · refine not_isValid_of_mistyped hs ?_
    simpa [ofText, Text.trim] using h.trimChars
  · replace hlength : body.length + 1 = digitCount := congrArg (· + 1) hlength
    have hlt : checkDigit (body.map digitValue) < 10 := Nat.mod_lt _ (by decide)
    have hdigits : ∀ d < 10, (Nat.digitChar d).isDigit ∧ digitValue (Nat.digitChar d) = d := by
      decide
    obtain ⟨hdigit, hvalue⟩ := hdigits _ hlt
    refine ⟨_, ⟨hdigit, (isValid_concat_iff hlength hbody hdigit).2 hvalue⟩, ?_⟩
    rintro c ⟨hc, hvalid⟩
    rw [isValid_concat_iff hlength hbody hc] at hvalid
    exact digitValue_injective hc hdigit (hvalid.trans hvalue.symm)

/-- The number of the owner of the system tariffs between blanks, with its first digit mistyped, and
without its check digit. -/
theorem isValid_guards_digits_energinet :
    (ofText " 5790000432752\n").isValid ∧
    Mistyped " 5790000432752\n".toList " 8790000432752\n".toList ∧
    (Text.trim " 5790000432752\n").length = 13 ∧ ¬ (ofText " 8790000432752\n").isValid ∧
    ∃! c, c.isDigit ∧ (ofText (.ofList ("579000043275".toList ++ [c]))).isValid := by
  have hvalid : (ofText " 5790000432752\n").isValid := by decide +kernel
  have hmistyped : Mistyped " 5790000432752\n".toList " 8790000432752\n".toList :=
    .intro [' '] "790000432752\n".toList (c := '5') (d := '8') rfl rfl (by decide)
  have hbody : ∀ c ∈ "579000043275".toList, c.isDigit := List.all_eq_true.1 (by decide)
  exact ⟨hvalid, hmistyped, (isValid_guards_digits.1 _ hvalid).1,
    isValid_guards_digits.2.1 _ _ hvalid hmistyped,
    isValid_guards_digits.2.2 _ (by decide) hbody⟩

end HourlyPrices.Gln
