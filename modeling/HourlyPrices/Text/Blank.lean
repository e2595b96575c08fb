/-!
# Blank characters

The characters of the Unicode property `White_Space`, and cutting them off the ends of a text.
-/

namespace HourlyPrices.Text

/-- The characters with the property `White_Space`. -/
def isBlank (c : Char) : Bool :=
  let n := c.toNat
  (9 ≤ n && n ≤ 13) || n == 0x20 || n == 0x85 || n == 0xa0 || n == 0x1680 ||
  (0x2000 ≤ n && n ≤ 0x200a) || n == 0x2028 || n == 0x2029 || n == 0x202f || n == 0x205f ||
  n == 0x3000

/-- Every character that core calls whitespace is blank. -/
theorem isBlank_of_isWhitespace {c : Char} (h : c.isWhitespace) : isBlank c := by
  simp only [Char.isWhitespace, Bool.or_eq_true, decide_eq_true_eq] at h
  rcases h with ((h | h) | h) | h <;> subst h <;> decide

theorem isBlank_of_isDigit {c : Char} (h : c.isDigit) : isBlank c = false := by
  have hrange : 48 ≤ c.toNat ∧ c.toNat ≤ 57 := Char.isDigit_iff_toNat.1 h
  simp [isBlank]
  omega

/-- Cuts blanks off the front. -/
def trimStart (cs : List Char) : List Char := cs.dropWhile isBlank

/-- Cuts off the end what the test accepts. -/
def dropEndWhile (p : Char → Bool) (cs : List Char) : List Char := (cs.reverse.dropWhile p).reverse

/-- Cuts blanks off both ends. -/
def trimChars (cs : List Char) : List Char := dropEndWhile isBlank (trimStart cs)

/-- A text without blanks stays as it is. -/
theorem trimChars_eq_self {cs : List Char} (h : ∀ c ∈ cs, isBlank c = false) :
    trimChars cs = cs := by
  have hdrop : ∀ cs : List Char, (∀ c ∈ cs, isBlank c = false) → cs.dropWhile isBlank = cs := by
    intro cs hcs
    cases cs with
    | nil => rfl
    | cons c cs => rw [List.dropWhile_cons_of_neg (by simp [hcs c List.mem_cons_self])]
  rw [trimChars, trimStart, hdrop cs h, dropEndWhile, hdrop cs.reverse (by simpa using h),
    List.reverse_reverse]

/-- In front of a character that is not blank only the front is cut, and behind it only the end. -/
theorem trimChars_append_cons {c : Char} (h : isBlank c = false) (before after : List Char) :
    trimChars (before ++ c :: after) = trimStart before ++ c :: dropEndWhile isBlank after := by
  have hdrop : ∀ cs ds : List Char,
      (cs ++ c :: ds).dropWhile isBlank = cs.dropWhile isBlank ++ c :: ds := by
    intro cs ds
    induction cs with
    | nil => exact List.dropWhile_cons_of_neg (by simp [h])
    | cons d cs ih =>
      by_cases hd : isBlank d = true
      · rw [List.cons_append, List.dropWhile_cons_of_pos hd, List.dropWhile_cons_of_pos hd, ih]
      · rw [List.cons_append, List.dropWhile_cons_of_neg hd, List.dropWhile_cons_of_neg hd,
          List.cons_append]
  rw [trimChars, trimStart, hdrop, dropEndWhile, List.reverse_append, List.reverse_cons,
    List.append_assoc, List.singleton_append, hdrop]
  simp [trimStart, dropEndWhile]

/-- Cuts blanks off both ends of a text. -/
def trim (s : String) : String := String.ofList (trimChars s.toList)

/-- Only blanks. -/
def isBlankText (s : String) : Bool := s.toList.all isBlank

/-- The small letter of an ASCII capital; any other character stays as it is. -/
def lowerAscii (c : Char) : Char := if 'A' ≤ c ∧ c ≤ 'Z' then Char.ofNat (c.toNat + 32) else c

end HourlyPrices.Text
