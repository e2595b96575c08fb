import HourlyPrices.Json.Reader

/-!
# Values of their own text

The text of a value is read back as that value (`Json.ofText?_toText`), when its numbers are numbers
and its strings have a text (`Json.Proper`). The reader is followed along the text: each part of it
leads from where a value is expected to where that value has been read
(`Json.Proper.readsBack`).
-/

namespace HourlyPrices.Json

variable {e : Expecting} {stack : List Frame} {cs rest : List Char}

/-- A value whose text shows it. -/
inductive Proper : Json → Prop
  | null : Proper .null
  | bool (b : Bool) : Proper (.bool b)
  | number {text : String} (h : isNumber text.toList) : Proper (.number text)
  | string (s : String) : Proper (.string s)
  | array {items : List Json} (h : ∀ v ∈ items, Proper v) : Proper (.array items)
  | object {members : List (String × Json)} (h : ∀ m ∈ members, Proper m.2) :
    Proper (.object members)

/-- What the rest of a text yields from where the reader stands. -/
def Expecting.readFrom (e : Expecting) (q : Position) (cs : List Char) : Option Json := do
  e.run (← tokensFrom q cs)

/-- A text that ends a number or a word before it. -/
def Stops (cs : List Char) : Prop := ∀ c ∈ cs.head?, isNumberChar c = false ∧ ¬ ('a' ≤ c ∧ c ≤ 'z')

/-! ## Tokens -/

theorem run_cons (e : Expecting) (t : Token) (ts : List Token) :
    e.run (t :: ts) = (e.step t).bind (·.run ts) := by
  rcases e with _ | _ | _ | _ | ⟨_ | _, _⟩ <;> rfl

theorem tokensFrom_cons {q q' : Position} {c : Char} {ts : List Token}
    (h : q.step c = some (ts, q')) :
    tokensFrom q (c :: cs) = (tokensFrom q' cs).map (ts ++ ·) := by
  simp only [tokensFrom, h, Option.bind_eq_bind, Option.bind_some]
  cases tokensFrom q' cs <;> rfl

/-- A character that yields no token moves the reader. -/
theorem readFrom_of_silent {q r : Position} {c : Char} (h : q.step c = some ([], r)) :
    e.readFrom q (c :: cs) = e.readFrom r cs := by
  simp only [Expecting.readFrom, tokensFrom_cons h]
  cases tokensFrom r cs <;> rfl

/-- A character that yields a token takes a step. -/
theorem readFrom_of_token {q r : Position} {c : Char} {t : Token}
    (h : q.step c = some ([t], r)) :
    e.readFrom q (c :: cs) = (e.step t).bind (·.readFrom r cs) := by
  simp only [Expecting.readFrom, tokensFrom_cons h]
  cases tokensFrom r cs with
  | none => cases e.step t <;> rfl
  | some ts => exact run_cons e t ts

/-- A number or a word that ends yields its token, and the rest of the text is read as between
tokens. -/
theorem readFrom_of_stops {q : Position} {t : Token} (hfinish : q.finish = some [t])
    (hstep : ∀ c, c ∈ rest.head? → q.step c = (beginToken c).map fun (ts, q') => (t :: ts, q')) :
    e.readFrom q rest = (e.step t).bind (·.readFrom .between rest) := by
  cases rest with
  | nil =>
    simp only [Expecting.readFrom, tokensFrom, hfinish]
    exact run_cons e t []
  | cons c cs =>
    replace hstep := hstep c rfl
    cases hbegin : beginToken c with
    | none =>
      have hbetween : Position.step c .between = none := hbegin
      simp only [Expecting.readFrom, tokensFrom, hstep, hbegin, hbetween]
      cases e.step t <;> rfl
    | some p =>
      obtain ⟨ts, q'⟩ := p
      have hbetween : Position.step c .between = some (ts, q') := hbegin
      rw [hbegin] at hstep
      simp only [Expecting.readFrom, tokensFrom_cons hstep, tokensFrom_cons hbetween]
      cases tokensFrom q' cs with
      | none => cases e.step t <;> rfl
      | some us => exact run_cons e t (ts ++ us)

/-- Characters that only add to what has been collected. -/
theorem readFrom_collect {q : List Char → Position}
    (h : ∀ c ∈ cs, ∀ before, (q before).step c = some ([], q (c :: before))) (before : List Char) :
    e.readFrom (q before) (cs ++ rest) = e.readFrom (q (cs.reverse ++ before)) rest := by
  induction cs generalizing before with
  | nil => rfl
  | cons c cs ih =>
    obtain ⟨hc, hcs⟩ := List.forall_mem_cons.1 h
    rw [List.cons_append, readFrom_of_silent (hc before), ih hcs]
    simp

/-! ## Strings -/

theorem hexValue?_hexDigit {n : Nat} (h : n < 16) : hexValue? (hexDigit n) = some n := by
  revert n
  decide

theorem readFrom_letterEscape (e : Expecting) (p : Partial) {l c : Char} (hl : l ≠ 'u')
    (hc : escapedChar? l = some c) (rest : List Char) :
    e.readFrom (.string p) ('\\' :: l :: rest) = e.readFrom (.string (p.push c)) rest := by
  have hescape : Position.step l (.escape p none) = some ([], .string (p.push c)) := by
    simp [Position.step, hl, hc]
  rw [readFrom_of_silent (r := .escape p none) rfl, readFrom_of_silent hescape]

theorem readFrom_unicodeEscape (e : Expecting) (p : Partial) {c : Char} (hc : c.toNat < 32)
    (rest : List Char) :
    e.readFrom (.string p) ('\\' :: 'u' :: '0' :: '0' :: hexDigit (c.toNat / 16) ::
      hexDigit (c.toNat % 16) :: rest) = e.readFrom (.string (p.push c)) rest := by
  have hhigh : Position.step (hexDigit (c.toNat / 16)) (.unicode p none 2 0) =
      some ([], .unicode p none 1 (c.toNat / 16)) := by
    simp [Position.step, hexValue?_hexDigit (show c.toNat / 16 < 16 by omega)]
  have hlow : Position.step (hexDigit (c.toNat % 16)) (.unicode p none 1 (c.toNat / 16)) =
      some ([], .string (p.push c)) := by
    have hvalue : c.toNat / 16 * 16 + c.toNat % 16 = c.toNat := by omega
    have hhalf : isHigh c.toNat = false ∧ isLow c.toNat = false := by
      simp only [isHigh, isLow, Bool.and_eq_false_iff, decide_eq_false_iff_not]
      omega
    simp [Position.step, hexValue?_hexDigit (show c.toNat % 16 < 16 by omega), hvalue, afterUnicode,
      hhalf, Char.ofNat_toNat]
  rw [readFrom_of_silent (r := .escape p none) rfl,
    readFrom_of_silent (r := .unicode p none 4 0) rfl,
    readFrom_of_silent (r := .unicode p none 3 0) rfl,
    readFrom_of_silent (r := .unicode p none 2 0) rfl,
    readFrom_of_silent hhigh, readFrom_of_silent hlow]

/-- A character is written by the letter of an escape, by its four digits or as itself. -/
theorem escapeChar_cases (c : Char) :
    (∃ l, l ≠ 'u' ∧ escapedChar? l = some c ∧ escapeChar c = ['\\', l]) ∨
    (c.toNat < 32 ∧ escapeChar c =
      ['\\', 'u', '0', '0', hexDigit (c.toNat / 16), hexDigit (c.toNat % 16)]) ∨
    (c ≠ '"' ∧ c ≠ '\\' ∧ ¬ c.toNat < 32 ∧ escapeChar c = [c]) := by
  by_cases hletter : c ∈ ['"', '\\', '\n', '\r', '\t', '\x08', '\x0c']
  · refine .inl ?_
    simp only [List.mem_cons, List.not_mem_nil, or_false] at hletter
    rcases hletter with rfl | rfl | rfl | rfl | rfl | rfl | rfl
    · exact ⟨'"', by decide, rfl, rfl⟩
    · exact ⟨'\\', by decide, rfl, rfl⟩
    · exact ⟨'n', by decide, rfl, rfl⟩
    · exact ⟨'r', by decide, rfl, rfl⟩
    · exact ⟨'t', by decide, rfl, rfl⟩
    · exact ⟨'b', by decide, rfl, rfl⟩
    · exact ⟨'f', by decide, rfl, rfl⟩
  · simp only [List.mem_cons, List.not_mem_nil, or_false, not_or] at hletter
    by_cases hcontrol : c.toNat < 32
    · exact .inr (.inl ⟨hcontrol, by simp [escapeChar, hletter, hcontrol]⟩)
    · exact .inr (.inr ⟨hletter.1, hletter.2.1, hcontrol, by simp [escapeChar, hletter, hcontrol]⟩)

/-- A written character is read as itself. -/
theorem readFrom_escapeChar (e : Expecting) (p : Partial) (c : Char) (rest : List Char) :
    e.readFrom (.string p) (escapeChar c ++ rest) = e.readFrom (.string (p.push c)) rest := by
  obtain ⟨l, hl, hc, h⟩ | ⟨hc, h⟩ | ⟨hquote, hbackslash, hcontrol, h⟩ := escapeChar_cases c
  · rw [h]
    exact readFrom_letterEscape e p hl hc rest
  · rw [h]
    exact readFrom_unicodeEscape e p hc rest
  · have hplain : Position.step c (.string p) = some ([], .string (p.push c)) := by
      simp [Position.step, stringStep, hquote, hbackslash, hcontrol]
    rw [h]
    exact readFrom_of_silent hplain

theorem readFrom_escaped (e : Expecting) (p : Partial) (cs rest : List Char) :
    e.readFrom (.string p) (cs.flatMap escapeChar ++ rest) =
      e.readFrom (.string { p with chars := cs.reverse ++ p.chars }) rest := by
  induction cs generalizing p with
  | nil => rfl
  | cons c cs ih =>
    rw [List.flatMap_cons, List.append_assoc, readFrom_escapeChar, ih]
    simp [Partial.push]

theorem readFrom_quote (e : Expecting) (s : String) (rest : List Char) :
    e.readFrom .between (quote s ++ rest) =
      (e.step (.string (some s))).bind (·.readFrom .between rest) := by
  have htext : Partial.text { chars := s.toList.reverse ++ [] } = some s := by
    simp [Partial.text]
  simp only [quote, List.cons_append, List.append_assoc, List.nil_append]
  rw [readFrom_of_silent (r := .string {}) rfl, readFrom_escaped,
    readFrom_of_token (r := .between) rfl, htext]

/-! ## Numbers and words -/

theorem isNumberChar_of_isDigit {c : Char} (h : isDigit c) : isNumberChar c := by
  simp only [isDigit] at h
  simp [isNumberChar, h]

theorem isNumberChar_of_all {ds : List Char} (h : ds.all isDigit) : ∀ c ∈ ds, isNumberChar c :=
  fun c hc => isNumberChar_of_isDigit (List.all_eq_true.1 h c hc)

theorem isNumberChar_of_isExponent (h : isExponent cs) : ∀ c ∈ cs, isNumberChar c := by
  cases cs with
  | nil => simp
  | cons m cs =>
    simp only [isExponent, Bool.and_eq_true, Bool.or_eq_true, beq_iff_eq] at h
    obtain ⟨⟨hm, -⟩, hdigits⟩ := h
    refine List.forall_mem_cons.2 ⟨?_, ?_⟩
    · rcases hm with rfl | rfl <;> decide
    · split at hdigits
      · exact List.forall_mem_cons.2 ⟨by decide, isNumberChar_of_all hdigits⟩
      · exact List.forall_mem_cons.2 ⟨by decide, isNumberChar_of_all hdigits⟩
      · exact isNumberChar_of_all hdigits

/-- Digits, and what number characters follow them. -/
theorem isNumberChar_of_dropWhile (h : ∀ c ∈ cs.dropWhile isDigit, isNumberChar c) :
    ∀ c ∈ cs, isNumberChar c := by
  rw [← List.takeWhile_append_dropWhile (p := isDigit) (l := cs)]
  exact List.forall_mem_append.2
    ⟨fun c hc => isNumberChar_of_isDigit (List.all_eq_true.1 List.all_takeWhile c hc), h⟩

theorem isNumberChar_of_isFractionExponent (h : isFractionExponent cs) :
    ∀ c ∈ cs, isNumberChar c := by
  unfold isFractionExponent at h
  split at h
  · rw [Bool.and_eq_true] at h
    exact List.forall_mem_cons.2
      ⟨by decide, isNumberChar_of_dropWhile (isNumberChar_of_isExponent h.2)⟩
  · exact isNumberChar_of_isExponent h

/-- A number begins with a digit or the sign, and only number characters follow. -/
theorem isNumber_cons (h : isNumber cs) :
    ∃ c ds, cs = c :: ds ∧ (c = '-' ∨ isDigit c) ∧ ∀ d ∈ ds, isNumberChar d := by
  unfold isNumber at h
  extract_lets unsigned at h
  obtain ⟨body, hbody⟩ : ∃ body, unsigned = body := ⟨_, rfl⟩
  rw [hbody] at h
  obtain ⟨d, ds, rfl, hd, hds⟩ : ∃ d ds, body = d :: ds ∧ isDigit d ∧ ∀ x ∈ ds, isNumberChar x := by
    split at h
    · exact ⟨_, _, rfl, rfl, isNumberChar_of_isFractionExponent h⟩
    · rw [Bool.and_eq_true] at h
      exact ⟨_, _, rfl, h.1, isNumberChar_of_dropWhile (isNumberChar_of_isFractionExponent h.2)⟩
    · cases h
  simp only [unsigned] at hbody
  split at hbody
  · exact ⟨'-', _, rfl, .inl rfl,
      hbody ▸ List.forall_mem_cons.2 ⟨isNumberChar_of_isDigit hd, hds⟩⟩
  · exact ⟨d, ds, hbody, .inr hd, hds⟩

theorem beginToken_of_number {c : Char} (h : c = '-' ∨ isDigit c) :
    beginToken c = some ([], .number [c]) := by
  rcases h with rfl | h
  · rfl
  · have hne : ∀ x ∈ [' ', '\t', '\n', '\r', '[', ']', '\x7b', '\x7d', ',', ':', '"', 'e', 'E'],
        c ≠ x := by
      simp only [List.forall_mem_cons]
      refine ⟨?_, ?_, ?_, ?_, ?_, ?_, ?_, ?_, ?_, ?_, ?_, ?_, ?_, nofun⟩ <;>
        (rintro rfl; exact absurd h (by decide))
    simp only [List.forall_mem_cons] at hne
    simp [beginToken, isSpace, isNumberChar_of_isDigit h, hne]

theorem readFrom_number {text : String} (h : isNumber text.toList) (hrest : Stops rest) :
    e.readFrom .between (text.toList ++ rest) =
      (e.step (.number text)).bind (·.readFrom .between rest) := by
  obtain ⟨c, ds, hcs, hc, hds⟩ := isNumber_cons h
  have hbegin : Position.step c .between = some ([], .number [c]) := beginToken_of_number hc
  have htoken : numberToken (c :: ds) = some (.number text) := by
    rw [numberToken, ← hcs, if_pos h, String.ofList_toList]
  have hcollect : ∀ x ∈ ds, ∀ before,
      (Position.number before).step x = some ([], .number (x :: before)) :=
    fun x hx before => if_pos (hds x hx)
  rw [hcs, List.cons_append, readFrom_of_silent hbegin, readFrom_collect hcollect]
  refine readFrom_of_stops (by simp [Position.finish, htoken]) fun x hx => ?_
  simp only [Position.step, (hrest x hx).1, List.reverse_append, List.reverse_reverse,
    List.reverse_cons, List.reverse_nil, List.nil_append, List.singleton_append, htoken]
  cases beginToken x <;> rfl

theorem readFrom_word {c : Char} {t : Token} (w : List Char) (htoken : wordToken (c :: w) = some t)
    (hbegin : beginToken c = some ([], .word [c])) (hw : w.all fun d => 'a' ≤ d ∧ d ≤ 'z')
    (hrest : Stops rest) :
    e.readFrom .between (c :: w ++ rest) = (e.step t).bind (·.readFrom .between rest) := by
  have hstep : Position.step c .between = some ([], .word [c]) := hbegin
  have hcollect : ∀ x ∈ w, ∀ before,
      (Position.word before).step x = some ([], .word (x :: before)) :=
    fun x hx before => if_pos (of_decide_eq_true (List.all_eq_true.1 hw x hx))
  rw [List.cons_append, readFrom_of_silent hstep, readFrom_collect hcollect]
  refine readFrom_of_stops (by simp [Position.finish, htoken]) fun x hx => ?_
  simp only [Position.step, (hrest x hx).2, List.reverse_append, List.reverse_reverse,
    List.reverse_cons, List.reverse_nil, List.nil_append, List.singleton_append, htoken]
  cases beginToken x <;> rfl

/-! ## Values -/

/-- Whether a value may come, in front of what is still open. -/
def Expecting.Takes (e : Expecting) (stack : List Frame) : Prop :=
  ∀ t, t ≠ .closeArray → e.step t = takeValue stack t

theorem takes_value (stack : List Frame) : (Expecting.value stack).Takes stack := fun _ _ => rfl

theorem takes_item (stack : List Frame) : (Expecting.item stack).Takes (.array [] :: stack) := by
  intro t ht
  cases t <;> first | rfl | exact absurd rfl ht

/-- Wherever a value may come, its text leads behind the value. -/
def ReadsBack (v : Json) : Prop :=
  ∀ (e : Expecting) (stack : List Frame) (rest : List Char), e.Takes stack → Stops rest →
    e.readFrom .between (v.toChars ++ rest) = (Expecting.next stack v).readFrom .between rest

theorem stops_cons {c : Char} (h : isNumberChar c = false ∧ ¬ ('a' ≤ c ∧ c ≤ 'z')) :
    Stops (c :: cs) := by
  intro d hd
  obtain rfl : c = d := by simpa using hd
  exact h

theorem readFrom_itemChars {v : Json} {vs : List Json} (h : ∀ w ∈ v :: vs, w.ReadsBack)
    {before : List Json} (he : e.Takes (.array before :: stack)) :
    e.readFrom .between (itemChars (v :: vs) ++ ']' :: rest) =
      (Expecting.next stack (.array (before.reverse ++ v :: vs))).readFrom .between rest := by
  obtain ⟨hv, hvs⟩ := List.forall_mem_cons.1 h
  induction vs generalizing e v before with
  | nil =>
    rw [itemChars, hv _ _ _ he (stops_cons (by decide)), readFrom_of_token (r := .between) rfl]
    simp [Expecting.step]
  | cons w ws ih =>
    obtain ⟨hw, hws⟩ := List.forall_mem_cons.1 hvs
    rw [itemChars, List.append_assoc, List.cons_append, hv _ _ _ he (stops_cons (by decide)),
      readFrom_of_token (r := .between) rfl]
    have hrest := ih hvs (takes_value (.array (v :: before) :: stack)) hw hws
    simpa [Expecting.step] using hrest

theorem readFrom_key (stack : List Frame) (before : List (String × Json)) (first : Bool)
    (k : String) (rest : List Char) :
    (Expecting.key stack before false first).readFrom .between (quote k ++ ':' :: rest) =
      (Expecting.value (.object before false k :: stack)).readFrom .between rest := by
  have hcolon : (Expecting.colon stack before false k).readFrom .between (':' :: rest) =
      (Expecting.value (.object before false k :: stack)).readFrom .between rest :=
    readFrom_of_token (t := .colon) rfl
  rw [readFrom_quote]
  exact hcolon

theorem readFrom_memberChars {m : String × Json} {ms : List (String × Json)}
    (h : ∀ n ∈ m :: ms, n.2.ReadsBack) (before : List (String × Json)) (first : Bool) :
    (Expecting.key stack before false first).readFrom .between
        (memberChars (m :: ms) ++ '\x7d' :: rest) =
      (Expecting.next stack (.object (before.reverse ++ m :: ms))).readFrom .between rest := by
  obtain ⟨hm, hms⟩ := List.forall_mem_cons.1 h
  induction ms generalizing m before first with
  | nil =>
    rw [memberChars, List.append_assoc, List.cons_append, readFrom_key,
      hm _ _ _ (takes_value _) (stops_cons (by decide)), readFrom_of_token (t := .closeObject) rfl]
    simp [Expecting.step, closedObject]
  | cons n ms ih =>
    obtain ⟨hn, hms'⟩ := List.forall_mem_cons.1 hms
    rw [memberChars, List.append_assoc, List.append_assoc, List.cons_append, List.cons_append,
      readFrom_key, hm _ _ _ (takes_value _) (stops_cons (by decide)),
      readFrom_of_token (t := .comma) rfl]
    have hrest := ih hms (m :: before) false hn hms'
    simpa [Expecting.step] using hrest

/-- The text of a value, wherever a value may come, leads behind that value. -/
theorem Proper.readsBack {v : Json} (h : v.Proper) : v.ReadsBack := by
  induction h with
  | null =>
    intro e stack rest he hrest
    have hword : e.readFrom .between (Json.null.toChars ++ rest) =
        (e.step .null).bind (·.readFrom .between rest) :=
      readFrom_word ['u', 'l', 'l'] rfl rfl rfl hrest
    rw [hword, he .null nofun]
    rfl
  | bool b =>
    intro e stack rest he hrest
    have hword : e.readFrom .between ((Json.bool b).toChars ++ rest) =
        (e.step (.bool b)).bind (·.readFrom .between rest) := by
      cases b with
      | false => exact readFrom_word ['a', 'l', 's', 'e'] rfl rfl rfl hrest
      | true => exact readFrom_word ['r', 'u', 'e'] rfl rfl rfl hrest
    rw [hword, he (.bool b) nofun]
    rfl
  | @number text h =>
    intro e stack rest he hrest
    rw [toChars, readFrom_number h hrest, he (.number text) nofun]
    rfl
  | string s =>
    intro e stack rest he hrest
    rw [toChars, readFrom_quote, he (.string (some s)) nofun]
    rfl
  | @array items _ ih =>
    intro e stack rest he hrest
    -- Behind the bracket an item may come, or the end of the array.
    have hopen (cs : List Char) :
        e.readFrom .between ('[' :: cs) = (Expecting.item stack).readFrom .between cs := by
      rw [readFrom_of_token (t := .openArray) rfl, he .openArray nofun]
      rfl
    cases items with
    | nil => exact (hopen _).trans (readFrom_of_token (t := .closeArray) rfl)
    | cons v vs =>
      rw [toChars, List.append_assoc, List.cons_append, hopen]
      exact readFrom_itemChars ih (takes_item stack)
  | @object members _ ih =>
    intro e stack rest he hrest
    have hopen (cs : List Char) : e.readFrom .between ('\x7b' :: cs) =
        (Expecting.key stack [] false true).readFrom .between cs := by
      rw [readFrom_of_token (t := .openObject) rfl, he .openObject nofun]
      rfl
    cases members with
    | nil => exact (hopen _).trans (readFrom_of_token (t := .closeObject) rfl)
    | cons m ms =>
      rw [toChars, List.append_assoc, List.cons_append, hopen]
      exact readFrom_memberChars ih [] true

/-- The text of a value is read as that value. -/
theorem ofText?_toText {v : Json} (h : v.Proper) : ofText? v.toText = some v := by
  have hread : (Expecting.value []).readFrom .between (v.toChars ++ []) = some v :=
    h.readsBack _ [] [] (takes_value []) nofun
  rw [List.append_nil] at hread
  rw [ofText?, toText, String.toList_ofList]
  exact hread

end HourlyPrices.Json
