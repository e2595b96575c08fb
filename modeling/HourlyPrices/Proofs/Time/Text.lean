import HourlyPrices.Proofs.Decimal.Text
import HourlyPrices.Proofs.Time.Calendar
import HourlyPrices.Time.Rfc3339
import HourlyPrices.Time.Text

/-!
# Dates and instants of their own text

Every date is written so that it is read as itself (`Time.readDate_toChars`), and so is an instant
without a fraction, in the years that have four digits (`Instant.ofText?_toSecondText`): each field
of the text fills its width, lies within its bounds and ends at the separator. A year outside of 0
to 9999 may have more digits, but it has a sign, behind which the separator alone ends it.
-/

namespace HourlyPrices

open Decimal (digitValue? paddedDigits isDigit_of_mem_paddedDigits ofDigitChars_paddedDigits
  length_paddedDigits length_paddedDigits_of_lt digitValue?_of_isDigit le_ofDigitChars)

namespace Time

variable {cs rest : List Char} {n width lo hi : Nat}

theorem ok_bind {ε α β : Type} (a : α) (f : α → Except ε β) : (Except.ok a >>= f) = f a :=
  pure_bind a f

/-! ## Fields -/

/-- Digits that fit are added to what has been read. -/
theorem takeDigits_append (hdigits : ∀ c ∈ cs, c.isDigit)
    (hfit : Nat.ofDigitChars 10 cs n < numberBound) (width : Nat) (rest : List Char) :
    takeDigits n (cs.length + width) (cs ++ rest) =
      takeDigits (Nat.ofDigitChars 10 cs n) width rest := by
  induction cs generalizing n with
  | nil => rw [List.length_nil, Nat.zero_add, List.nil_append, Nat.ofDigitChars_nil]
  | cons c cs ih =>
    obtain ⟨hc, hcs⟩ := List.forall_mem_cons.1 hdigits
    have hnext : n * 10 + (c.toNat - '0'.toNat) = 10 * n + (c.toNat - '0'.toNat) := by
      rw [Nat.mul_comm]
    have hbound : n * 10 + (c.toNat - '0'.toNat) < numberBound :=
      Nat.lt_of_le_of_lt (hnext ▸ le_ofDigitChars _ cs) hfit
    rw [List.length_cons, Nat.add_right_comm, List.cons_append, takeDigits,
      digitValue?_of_isDigit hc]
    simp only [if_pos hbound]
    rw [hnext]
    exact ih hcs hfit

/-- A separator ends a number. -/
theorem takeDigits_separator {c : Char} (hc : digitValue? c = none) (n width : Nat)
    (rest : List Char) : takeDigits n width (c :: rest) = .ok (n, c :: rest) := by
  cases width with
  | zero => rfl
  | succ width => rw [takeDigits, hc]

/-- A number in front is written with digits. -/
theorem exists_paddedDigits_cons (hwidth : 0 < width) (n : Nat) :
    ∃ d ds, paddedDigits width n = d :: ds ∧ d.isDigit := by
  have hlength : 0 < (paddedDigits width n).length := by
    rw [length_paddedDigits]
    omega
  obtain ⟨d, ds, h⟩ := List.exists_cons_of_length_pos hlength
  exact ⟨d, ds, h, isDigit_of_mem_paddedDigits (h ▸ List.mem_cons_self)⟩

/-- A number is read from its digits, and the rest is left to what remains of the width. -/
theorem readNumber_append (hwidth : 0 < width) (hbound : n < numberBound) (more : Nat)
    (rest : List Char) :
    readNumber ((paddedDigits width n).length + more) (paddedDigits width n ++ rest) =
      takeDigits n more rest := by
  obtain ⟨d, ds, h, hd⟩ := exists_paddedDigits_cons hwidth n
  have hvalue := ofDigitChars_paddedDigits width n
  have htake := takeDigits_append (n := 0) (fun c hc => isDigit_of_mem_paddedDigits hc)
    (hvalue ▸ hbound) more rest
  rw [hvalue] at htake
  rw [← htake, h, List.cons_append, readNumber, digitValue?_of_isDigit hd]

theorem readNumber_paddedDigits (hwidth : 0 < width) (hn : n < tenTo width)
    (hbound : n < numberBound) (rest : List Char) :
    readNumber width (paddedDigits width n ++ rest) = .ok (n, rest) := by
  have hread := readNumber_append hwidth hbound 0 rest
  rwa [length_paddedDigits_of_lt hwidth hn] at hread

/-- No blank stands in front of a number. -/
theorem trimStart_paddedDigits (hwidth : 0 < width) (n : Nat) (rest : List Char) :
    Text.trimStart (paddedDigits width n ++ rest) = paddedDigits width n ++ rest := by
  obtain ⟨d, ds, h, hd⟩ := exists_paddedDigits_cons hwidth n
  rw [h, List.cons_append, Text.trimStart,
    List.dropWhile_cons_of_neg (by simp [Text.isBlank_of_isDigit hd])]

theorem readField_paddedDigits (hn : lo ≤ n ∧ n ≤ hi) (hhi : hi < 100) (rest : List Char) :
    readField lo hi (paddedDigits 2 n ++ rest) = .ok (n, rest) := by
  have hbound : n < numberBound := by
    simp only [numberBound]
    omega
  rw [readField, trimStart_paddedDigits (by decide),
    readNumber_paddedDigits (by decide) (show n < 100 by omega) hbound]
  simp only [ok_bind, inBounds, if_pos hn]
  rfl

/-- A year is read up to the dash behind it: without a sign it has four digits, and behind a sign
the dash ends it. -/
theorem readYear_yearText {y : Int} (h : -2147483648 ≤ y ∧ y < 2147483648) (rest : List Char) :
    readYear (yearText y ++ '-' :: rest) = .ok (y, '-' :: rest) := by
  have hbound : y.natAbs < numberBound := by
    simp only [numberBound]
    omega
  by_cases hplain : 0 ≤ y ∧ y ≤ 9999
  · obtain ⟨n, rfl⟩ := Int.eq_ofNat_of_zero_le hplain.1
    have hread : readNumber 4 (paddedDigits 4 n ++ '-' :: rest) = .ok (n, '-' :: rest) :=
      readNumber_paddedDigits (by decide) (show n < 10000 by omega) hbound _
    obtain ⟨d, ds, hdigits, hd⟩ := exists_paddedDigits_cons (show 0 < 4 by decide) n
    rw [yearText, if_pos hplain, Int.toNat_natCast, readYear, trimStart_paddedDigits (by decide)]
    split
    · rename_i heq
      rw [hdigits, List.cons_append, List.cons.injEq] at heq
      exact absurd (heq.1 ▸ hd) (by decide)
    · rename_i heq
      rw [hdigits, List.cons_append, List.cons.injEq] at heq
      exact absurd (heq.1 ▸ hd) (by decide)
    · simp only [hread, ok_bind, if_pos h]
      rfl
  · have hread : ∀ r, r = paddedDigits 4 y.natAbs ++ '-' :: rest →
        readNumber r.length r = .ok (y.natAbs, '-' :: rest) := by
      rintro r rfl
      rw [List.length_append, readNumber_append (by decide) hbound]
      exact takeDigits_separator (by decide) _ _ _
    rw [yearText, if_neg hplain]
    by_cases hneg : y < 0
    · have hvalue : -(y.natAbs : Int) = y := by omega
      rw [if_pos hneg]
      have htrim : Text.trimStart (('-' :: paddedDigits 4 y.natAbs) ++ '-' :: rest) =
          '-' :: (paddedDigits 4 y.natAbs ++ '-' :: rest) := rfl
      simp only [readYear, htrim, hread _ rfl, ok_bind, hvalue, if_pos h]
      rfl
    · have hvalue : (y.natAbs : Int) = y := by omega
      rw [if_neg hneg]
      have htrim : Text.trimStart (('+' :: paddedDigits 4 y.natAbs) ++ '-' :: rest) =
          '+' :: (paddedDigits 4 y.natAbs ++ '-' :: rest) := rfl
      simp only [readYear, htrim, hread _ rfl, ok_bind, hvalue, if_pos h]
      rfl

/-! ## Patterns -/

theorem readItems_of_readItem {f g : Fields} {i : PatternItem} (h : readItem f cs i = .ok (g, rest))
    (is : List PatternItem) : readItems f (i :: is) cs = readItems g is rest := by
  rw [readItems, h, ok_bind]

theorem readItems_literal (f : Fields) (c : Char) (is : List PatternItem) (rest : List Char) :
    readItems f (.literal c :: is) (c :: rest) = readItems f is rest :=
  readItems_of_readItem (show readItem f (c :: rest) (.literal c) = _ from if_pos rfl) is

theorem readItems_year {y : Int} (h : -2147483648 ≤ y ∧ y < 2147483648) (f : Fields)
    (is : List PatternItem) (rest : List Char) :
    readItems f (.year :: is) (yearText y ++ '-' :: rest) =
      readItems { f with year := some y } is ('-' :: rest) := by
  refine readItems_of_readItem ?_ is
  rw [readItem, readYear_yearText h, ok_bind]
  rfl

/-- A field of two digits. -/
theorem readItems_field {i : PatternItem} {g : Fields → Nat → Fields}
    (hitem : ∀ f cs, readItem f cs i = do let (n, rest) ← readField lo hi cs; return (g f n, rest))
    (hn : lo ≤ n ∧ n ≤ hi) (hhi : hi < 100) (f : Fields) (is : List PatternItem)
    (rest : List Char) :
    readItems f (i :: is) (paddedDigits 2 n ++ rest) = readItems (g f n) is rest := by
  refine readItems_of_readItem ?_ is
  rw [hitem, readField_paddedDigits hn hhi, ok_bind]
  rfl

theorem readItems_date {d : Date} (hvalid : d.Valid) (f : Fields)
    (is : List PatternItem) (rest : List Char) :
    readItems f (yearMonthDay ++ is) (d.toChars ++ rest) =
      readItems { f with year := some d.year, month := some d.month, day := some d.day }
        is rest := by
  obtain ⟨hmin, hmax, hmonth, hmonth', hday, hday'⟩ := hvalid
  have hyear : -2147483648 ≤ d.year ∧ d.year < 2147483648 := by
    simp only [Date.minYear, Date.maxYear] at hmin hmax
    omega
  have hlast := Date.daysInMonth_le d.year d.month
  simp only [yearMonthDay, Date.toChars, List.append_assoc, List.cons_append, List.nil_append]
  rw [readItems_year hyear, readItems_literal,
    readItems_field (g := fun f n => { f with month := some n }) (fun _ _ => rfl)
      ⟨hmonth, hmonth'⟩ (by decide),
    readItems_literal,
    readItems_field (g := fun f n => { f with day := some n }) (fun _ _ => rfl)
      ⟨hday, Nat.le_trans hday' hlast⟩ (by decide)]

theorem readItems_clock (t : TimeOfDay) (f : Fields) (is : List PatternItem) (rest : List Char) :
    readItems f (hourMinuteSecond ++ is) (t.wholeChars ++ rest) =
      readItems { f with hour := some t.hour, minute := some t.minute, second := some t.second }
        is rest := by
  have hhour : t.hour ≤ 23 := by
    have := t.seconds_lt
    simp only [TimeOfDay.hour, secondsPerDay] at *
    omega
  have hminute : t.minute ≤ 59 := by
    simp only [TimeOfDay.minute]
    omega
  have hsecond : t.second ≤ 60 := by
    have := t.nanos_lt
    simp only [TimeOfDay.second, clockNanos, nanosPerSecond] at *
    omega
  simp only [hourMinuteSecond, hourMinute, TimeOfDay.wholeChars, List.append_assoc,
    List.cons_append, List.nil_append]
  rw [readItems_field (g := fun f n => { f with hour := some n }) (fun _ _ => rfl)
      ⟨Nat.zero_le _, hhour⟩ (by decide),
    readItems_literal,
    readItems_field (g := fun f n => { f with minute := some n }) (fun _ _ => rfl)
      ⟨Nat.zero_le _, hminute⟩ (by decide),
    readItems_literal,
    readItems_field (g := fun f n => { f with second := some n }) (fun _ _ => rfl)
      ⟨Nat.zero_le _, hsecond⟩ (by decide)]

/-! ## Dates -/

theorem readDate_toChars {d : Date} (hvalid : d.Valid) : readDate d.toChars = .ok d := by
  have hread := readItems_date hvalid {} [] []
  rw [List.append_nil, List.append_nil] at hread
  have hdate : Date.ofParts? d.year d.month d.day = some d := if_pos hvalid
  rw [readDate, hread, readItems, ok_bind]
  simp only [Fields.date, hdate]

/-- Only dates that exist are read. -/
theorem valid_of_readDate {d : Date} (h : readDate cs = .ok d) : d.Valid := by
  unfold readDate at h
  cases hread : readItems {} yearMonthDay cs with
  | error e =>
    rw [hread] at h
    cases h
  | ok f =>
    rw [hread, ok_bind, Fields.date] at h
    split at h
    · rename_i y m day _ _ _
      unfold Date.ofParts? at h
      by_cases hvalid : Date.Valid ⟨y, m, day⟩
      · rw [if_pos hvalid] at h
        cases h
        exact hvalid
      · rw [if_neg hvalid] at h
        cases h
    · cases h

/-! ## Local times -/

theorem ofParts?_clock {t : TimeOfDay} (hnanos : t.nanos = 0) :
    TimeOfDay.ofParts? t.hour t.minute t.second 0 = some t := by
  obtain ⟨seconds, nanos, hseconds, _⟩ := t
  obtain rfl : nanos = 0 := hnanos
  have hsecond : seconds % 60 + 0 / nanosPerSecond = seconds % 60 := by simp
  have hparts : seconds / 3600 < 24 ∧ seconds / 60 % 60 < 60 ∧ seconds % 60 ≤ 60 ∧
      0 < nanosPerSecond := by
    simp only [secondsPerDay, nanosPerSecond] at *
    omega
  simp only [TimeOfDay.ofParts?, TimeOfDay.hour, TimeOfDay.minute, TimeOfDay.second, hsecond,
    dif_pos hparts, Option.some.injEq, TimeOfDay.mk.injEq]
  rw [if_neg (by omega)]
  omega

theorem readLocalTime_wholeChars (t : LocalTime) (hyear : 0 ≤ t.date.year ∧ t.date.year ≤ 9999)
    (hnanos : t.nanos = 0) : readLocalTime dateTime (t.wholeChars 'T') = .ok t := by
  have hvalid : t.date.Valid :=
    Date.valid_ofDayNumber (Int.le_trans (by decide) hyear.1) (Int.le_trans hyear.2 (by decide))
  have hread : readItems {} dateTime (t.wholeChars 'T') = .ok
      { year := t.date.year, month := t.date.month, day := t.date.day,
        hour := t.timeOfDay.hour, minute := t.timeOfDay.minute, second := t.timeOfDay.second } := by
    have hclock := readItems_clock t.timeOfDay
      { year := t.date.year, month := t.date.month, day := t.date.day } [.fraction] []
    rw [List.append_nil] at hclock
    rw [dateTime, List.append_assoc, List.cons_append, LocalTime.wholeChars,
      readItems_date hvalid, readItems_literal, hclock]
    rfl
  have hdate : Date.ofParts? t.date.year t.date.month t.date.day = some t.date := if_pos hvalid
  have htime := ofParts?_clock (t := t.timeOfDay) hnanos
  have hwhole : LocalTime.ofDate t.date t.timeOfDay = t := by
    obtain ⟨seconds, nanos, _⟩ := t
    simp only [LocalTime.ofDate, LocalTime.ofDay, LocalTime.date, Date.dayNumber_ofDayNumber,
      LocalTime.day, LocalTime.timeOfDay, secondsPerDay, LocalTime.mk.injEq, and_true]
    omega
  rw [readLocalTime, hread, ok_bind]
  simp only [Fields.date, Fields.timeOfDay, hdate, ok_bind, Option.getD_some, Option.getD_none,
    htime]
  rw [hwhole]
  rfl

end Time

/-- The text of a second is read as that second. -/
theorem Instant.ofText?_toSecondText {t : Instant} (hnanos : t.nanos = 0)
    (hyear : 0 ≤ (LocalTime.ofUtc t).date.year ∧ (LocalTime.ofUtc t).date.year ≤ 9999) :
    Instant.ofText? t.toSecondText = some t := by
  have hread := Time.readLocalTime_wholeChars (.ofUtc t) hyear hnanos
  have hsplit (cs : List Char) : splitOffset? (cs ++ ['Z']) = some (cs, 0) := by
    simp [splitOffset?]
  have htext : t.toSecondText.toList = (LocalTime.ofUtc t).wholeChars 'T' ++ ['Z'] := by
    simp [toSecondText]
  rw [ofText?, htext, hsplit]
  simp only [Option.bind_eq_bind, Option.bind_some, hread, Except.toOption]
  simp [LocalTime.ofUtc]

end HourlyPrices
