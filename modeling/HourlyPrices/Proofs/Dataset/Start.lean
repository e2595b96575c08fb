import HourlyPrices.Dataset.Query
import HourlyPrices.Proofs.Time.Text

/-!
# Starts of their own text

Whatever is read as a start, its text is read as a start of the same meaning and the same text
(`Start.ofText_toText`). A date is read as itself, and so is an anchor with its offset; only the
unit of an offset of zero is lost, since zero is not shown. The text of an anchor is not taken for
a date, because it begins with a letter.
-/

namespace HourlyPrices

variable {cs : List Char} {n : Nat}

namespace Offset

theorem splitLast_concat (cs : List Char) (c : Char) : splitLast (cs ++ [c]) = some (cs, c) := by
  induction cs with
  | nil => rfl
  | cons a cs ih =>
    obtain ⟨b, bs, h⟩ := List.exists_cons_of_ne_nil (show cs ++ [c] ≠ [] by simp)
    rw [List.cons_append, h, splitLast, ← h, ih]
    rfl

theorem digitsValue?_toDigits (n : Nat) : digitsValue? (Nat.toDigits 10 n) = some n := by
  rw [digitsValue?, if_neg (by simp), Decimal.foldl_digitValue?_eq_some_iff]
  exact ⟨fun c hc => Nat.isDigit_of_mem_toDigits (by decide) (by decide) hc,
    Nat.ofDigitChars_toDigits (by decide) (by decide)⟩

/-- The size of an offset can be read: the count of its unit is bounded, and so is its span. -/
structure Readable (o : Offset) : Prop where
  bounded : o.amount.natAbs < 9223372036854775808
  spans : (Offset.mk o.unit o.amount.natAbs).span?.isSome

variable {o : Offset}

theorem readable_of_ofDigits? {unit : OffsetUnit} (h : ofDigits? unit cs = some o) :
    o.Readable := by
  rw [ofDigits?] at h
  obtain ⟨n, -, h⟩ := Option.bind_eq_some_iff.1 h
  dsimp only at h
  split at h
  · rename_i hfits
    cases h
    exact ⟨hfits.1, hfits.2⟩
  · cases h

theorem readable_of_ofMagnitude? (h : ofMagnitude? cs = some o) : o.Readable := by
  unfold ofMagnitude? at h
  split at h
  · split at h
    · exact readable_of_ofDigits? h
    · exact readable_of_ofDigits? h
    · cases h
  · split at h
    · exact readable_of_ofDigits? h
    · cases h
  · cases h

theorem Readable.neg (h : o.Readable) : Readable { o with amount := -o.amount } :=
  ⟨by simpa using h.bounded, by simpa using h.spans⟩

theorem span?_isSome_iff : o.span?.isSome ↔
    -Span.maxMillis * 1000000 ≤ o.amount * unitSeconds o.unit * nanosPerSecond ∧
      o.amount * unitSeconds o.unit * nanosPerSecond ≤ Span.maxMillis * 1000000 := by
  unfold span? Span.checked
  split
  · rename_i hin
    exact iff_of_true rfl (of_decide_eq_true hin)
  · rename_i hout
    exact iff_of_false (by simp) fun h => hout (decide_eq_true h)

/-- As far as a span reaches in one direction, it reaches in the other. -/
theorem Readable.exists_span (h : o.Readable) : ∃ span, o.span? = some span := by
  have hsize := span?_isSome_iff.1 h.spans
  rw [← Option.isSome_iff_exists, span?_isSome_iff]
  obtain ⟨unit, amount⟩ := o
  cases unit <;> simp only [unitSeconds, nanosPerSecond] at hsize ⊢ <;> omega

/-- The size of an offset is read from its text. -/
theorem Readable.ofMagnitude? (h : o.Readable) :
    ofMagnitude? o.magnitudeChars = some ⟨o.unit, o.amount.natAbs⟩ := by
  have hdigits : ofDigits? o.unit (Nat.toDigits 10 o.amount.natAbs) =
      some ⟨o.unit, o.amount.natAbs⟩ := by
    rw [ofDigits?, digitsValue?_toDigits]
    exact if_pos ⟨h.bounded, h.spans⟩
  obtain ⟨unit, amount⟩ := o
  cases unit with
  | days =>
    obtain ⟨d, ds, hd⟩ := List.exists_cons_of_ne_nil
      (show Nat.toDigits 10 amount.natAbs ≠ [] from Nat.toDigits_ne_nil)
    have hdigit : d ≠ 'T' := by
      rintro rfl
      have hT : 'T' ∈ Nat.toDigits 10 amount.natAbs := hd ▸ List.mem_cons_self
      exact absurd (Nat.isDigit_of_mem_toDigits (by decide) (by decide) hT) (by decide)
    have hsplit : splitLast (d :: (ds ++ ['D'])) = some (Nat.toDigits 10 amount.natAbs, 'D') := by
      rw [hd, ← List.cons_append, splitLast_concat]
    simp only [magnitudeChars, hd, List.cons_append, Offset.ofMagnitude?]
    split
    · rename_i heq
      cases heq
      exact absurd rfl hdigit
    · rename_i heq
      cases heq
      rw [hsplit]
      exact hdigits
    · rename_i hother
      exact absurd rfl (hother (d :: (ds ++ ['D'])))
  | hours | minutes =>
    simp only [magnitudeChars, Offset.ofMagnitude?, List.cons_append, splitLast_concat]
    exact hdigits

theorem isBlank_of_mem_magnitudeChars (o : Offset) :
    ∀ c ∈ o.magnitudeChars, Text.isBlank c = false := by
  have hdigits : ∀ c ∈ Nat.toDigits 10 o.amount.natAbs, Text.isBlank c = false :=
    fun c hc => Text.isBlank_of_isDigit (Nat.isDigit_of_mem_toDigits (by decide) (by decide) hc)
  obtain ⟨unit, amount⟩ := o
  cases unit <;>
    simp only [magnitudeChars, List.cons_append, List.forall_mem_cons, List.forall_mem_append]
  · exact ⟨by decide, hdigits, by decide, by simp⟩
  · exact ⟨by decide, by decide, hdigits, by decide, by simp⟩
  · exact ⟨by decide, by decide, hdigits, by decide, by simp⟩

end Offset

/-! ## Starts -/

namespace Start

variable {s : String} {p : Start}

/-- The span of an offset; without an offset it is zero. -/
def spanOf? : Option Offset → Option Span
  | none => some (.ofSeconds 0)
  | some o => o.span?

/-- Two starts of the same meaning: both are empty, the same date, or the same anchor with the same
span behind it. -/
inductive Same : Start → Start → Prop
  | empty : Same .empty .empty
  | date (d : Date) : Same (.date d) (.date d)
  | anchored (a : Anchor) {o o' : Option Offset} {span : Span} (h : spanOf? o = some span)
      (h' : spanOf? o' = some span) : Same (.anchored a o) (.anchored a o')

/-- A start that can be read. -/
inductive Readable : Start → Prop
  | empty : Readable .empty
  | date {d : Date} (h : d.Valid) : Readable (.date d)
  | anchored {a : Anchor} {o : Option Offset} (h : ∀ x, o = some x → x.Readable) :
      Readable (.anchored a o)

theorem readable_of_anchoredOfChars? (h : anchoredOfChars? cs = some p) : p.Readable := by
  unfold anchoredOfChars? at h
  split at h
  · obtain ⟨a, -, rfl⟩ := Option.map_eq_some_iff.1 h
    exact .anchored fun x hx => by cases hx
  · rename_i sign r _
    obtain ⟨o, ho, h⟩ := Option.bind_eq_some_iff.1 h
    obtain ⟨a, -, h⟩ := Option.bind_eq_some_iff.1 h
    have hreadable := Offset.readable_of_ofMagnitude? ho
    cases h
    refine .anchored fun x hx => ?_
    cases hx
    split
    · exact hreadable.neg
    · exact hreadable

theorem readable_of_ofText (h : ofText s = .ok p) : p.Readable := by
  unfold ofText at h
  split at h
  · rename_i start hstart
    cases h
    unfold ofTrimmed? at hstart
    split at hstart
    · cases hstart
      exact .empty
    · split at hstart
      · rename_i d hd
        cases hstart
        exact .date (Time.valid_of_readDate hd)
      · exact readable_of_anchoredOfChars? hstart
  · cases h

/-- The text of a start has no blanks. -/
theorem isBlank_of_mem_toChars (p : Start) : ∀ c ∈ p.toChars, Text.isBlank c = false := by
  have hpadded : ∀ {width n}, ∀ c ∈ Decimal.paddedDigits width n, Text.isBlank c = false :=
    fun c hc => Text.isBlank_of_isDigit (Decimal.isDigit_of_mem_paddedDigits hc)
  cases p with
  | empty => exact fun c hc => by cases hc
  | date d =>
    have hyear : ∀ c ∈ yearText d.year, Text.isBlank c = false := by
      unfold yearText
      split
      · exact hpadded
      · refine List.forall_mem_cons.2 ⟨?_, hpadded⟩
        split <;> decide
    simp only [toChars, Date.toChars, List.forall_mem_append, List.forall_mem_cons]
    exact ⟨⟨hyear, by decide, hpadded⟩, by decide, hpadded⟩
  | anchored a o =>
    have hname : a.name.toList.all (! Text.isBlank ·) := by cases a <;> rfl
    refine List.forall_mem_append.2 ⟨by simpa using List.all_eq_true.1 hname, ?_⟩
    cases o with
    | none => exact fun c hc => by cases hc
    | some o =>
      have hmagnitude := o.isBlank_of_mem_magnitudeChars
      rw [offsetChars]
      split
      · exact List.forall_mem_cons.2 ⟨by decide, hmagnitude⟩
      · split
        · exact List.forall_mem_cons.2 ⟨by decide, hmagnitude⟩
        · exact fun c hc => by cases hc

theorem readDate_anchor (a : Anchor) (cs : List Char) :
    Time.readDate (a.name.toList ++ cs) = .error .invalid := by
  cases a <;> rfl

theorem ofChars?_name (a : Anchor) : Anchor.ofChars? a.name.toList = some a := by
  cases a <;> rfl

theorem not_isSign_of_mem_name (a : Anchor) : ∀ c ∈ a.name.toList, !isSign c := by
  have hname : a.name.toList.all (!isSign ·) := by cases a <;> rfl
  exact List.all_eq_true.1 hname

theorem ofTrimmed?_name (a : Anchor) : ofTrimmed? a.name.toList = some (.anchored a none) := by
  cases a <;> rfl

/-- Behind an anchor, a sign begins the offset. -/
theorem ofTrimmed?_name_sign (a : Anchor) {sign : Char} (hsign : isSign sign) {o : Offset}
    (ho : Offset.ofMagnitude? cs = some o) : ofTrimmed? (a.name.toList ++ sign :: cs) =
      some (.anchored a (some (if sign = '-' then { o with amount := -o.amount } else o))) := by
  have hdrop : (a.name.toList ++ sign :: cs).dropWhile (fun c => !isSign c) = sign :: cs := by
    rw [List.dropWhile_append_of_pos (not_isSign_of_mem_name a),
      List.dropWhile_cons_of_neg (by simp [hsign])]
  have htake : (a.name.toList ++ sign :: cs).takeWhile (fun c => !isSign c) = a.name.toList := by
    rw [List.takeWhile_append_of_pos (not_isSign_of_mem_name a),
      List.takeWhile_cons_of_neg (by simp [hsign]), List.append_nil]
  rw [ofTrimmed?, if_neg (by simp), readDate_anchor, anchoredOfChars?, hdrop]
  simp only [ho, htake, ofChars?_name, Option.bind_eq_bind, Option.bind_some, Option.pure_def]

/-- An offset that is shown is read as it is. -/
theorem ofTrimmed?_name_offset (a : Anchor) {o : Offset} (h : o.Readable) (hne : o.amount ≠ 0) :
    ofTrimmed? (a.name.toList ++ offsetChars (some o)) = some (.anchored a (some o)) := by
  have hread : ∀ {sign}, isSign sign → _ := fun hsign =>
    ofTrimmed?_name_sign a hsign h.ofMagnitude?
  obtain ⟨unit, amount⟩ := o
  rcases Int.lt_or_gt_of_ne hne with hneg | hpos
  · have hamount : -(amount.natAbs : Int) = amount := by
      simp only at hneg
      omega
    rw [offsetChars, if_pos hneg, hread rfl, if_pos rfl, hamount]
  · have hamount : (amount.natAbs : Int) = amount := by
      simp only at hpos
      omega
    rw [offsetChars, if_neg (Int.not_lt.2 (Int.le_of_lt hpos)), if_pos hpos, hread rfl,
      if_neg (by decide), hamount]

/-- An offset of zero is not shown. -/
theorem offsetChars_of_zero {o : Offset} (h : o.amount = 0) : offsetChars (some o) = [] := by
  simp [offsetChars, h]

theorem spanOf?_of_zero {o : Offset} (h : o.amount = 0) :
    spanOf? (some o) = some (.ofSeconds 0) := by
  rw [spanOf?, Offset.span?, h, Int.zero_mul]
  rfl

/-- A start that can be read is read from its text, but for the unit of an offset of zero. -/
theorem Readable.ofTrimmed?_toChars (h : p.Readable) :
    ∃ q, ofTrimmed? p.toChars = some q ∧ q.toChars = p.toChars ∧ Same p q := by
  cases h with
  | empty => exact ⟨.empty, rfl, rfl, .empty⟩
  | @date d hvalid =>
    have hne : d.toChars ≠ [] := by simp [Date.toChars]
    refine ⟨.date d, ?_, rfl, .date d⟩
    rw [toChars, ofTrimmed?, if_neg (by simpa using hne), Time.readDate_toChars hvalid]
  | @anchored a o ho =>
    have hname : (Start.anchored a none).toChars = a.name.toList := List.append_nil _
    cases o with
    | none => exact ⟨.anchored a none, hname ▸ ofTrimmed?_name a, rfl, .anchored a rfl rfl⟩
    | some o =>
      by_cases hzero : o.amount = 0
      · refine ⟨.anchored a none, ?_, ?_, .anchored a (spanOf?_of_zero hzero) rfl⟩
        · rw [toChars, offsetChars_of_zero hzero, List.append_nil, ofTrimmed?_name]
        · rw [toChars, toChars, offsetChars_of_zero hzero, offsetChars]
      · obtain ⟨span, hspan⟩ := (ho o rfl).exists_span
        exact ⟨.anchored a (some o), ofTrimmed?_name_offset a (ho o rfl) hzero, rfl,
          .anchored a hspan hspan⟩

/-- Whatever is read as a start, its text is read again, as a start with the same text, the same
meaning and the same parameter of requests. -/
theorem ofText_toText (s : String) (p : Start) (h : ofText s = .ok p) :
    ∃ q, ofText p.toText = .ok q ∧ q.toText = p.toText ∧ Same p q ∧
      q.parameters = p.parameters := by
  obtain ⟨q, hq, htext, hsame⟩ := (readable_of_ofText h).ofTrimmed?_toChars
  have hsameText : q.toText = p.toText := congrArg String.ofList htext
  refine ⟨q, ?_, hsameText, hsame, ?_⟩
  · rw [ofText, toText, String.toList_ofList, Text.trimChars_eq_self p.isBlank_of_mem_toChars, hq]
  · have hempty : q.isEmpty = p.isEmpty := by cases hsame <;> rfl
    rw [parameters, parameters, hempty, hsameText]

/-- An anchor in small letters between blanks, with an offset of hours that begins with zeros. -/
theorem ofText_toText_anchored :
    ofText " utcnow-PT0024H\t" = .ok (.anchored .utcNow (some ⟨.hours, -24⟩)) ∧
    toText (.anchored .utcNow (some ⟨.hours, -24⟩)) = "UtcNow-PT24H" ∧
    ∃ q, ofText (toText (.anchored .utcNow (some ⟨.hours, -24⟩))) = .ok q ∧
      q.toText = toText (.anchored .utcNow (some ⟨.hours, -24⟩)) ∧
      Same (.anchored .utcNow (some ⟨.hours, -24⟩)) q ∧
      q.parameters = parameters (.anchored .utcNow (some ⟨.hours, -24⟩)) :=
  ⟨by rfl, by rfl, ofText_toText " utcnow-PT0024H\t" _ (by rfl)⟩

end Start

end HourlyPrices
