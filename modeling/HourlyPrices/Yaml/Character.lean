/-!
# Characters of a YAML text

A text is a sequence of printable characters. The line breaks of all systems are read as a line
feed; the line and paragraph separators are breaks that keep their own character.
-/

namespace HourlyPrices.Yaml

/-- Line breaks, once those of all systems are read as a line feed. -/
def isBreak (c : Char) : Bool := c == '\n' || c == '\u2028' || c == '\u2029'

/-- Blanks within a line. -/
def isBlank (c : Char) : Bool := c == ' ' || c == '\t'

/-- Whether a text is at its end, at a blank or at a break. -/
def atGap : List Char → Bool
  | [] => true
  | c :: _ => isBlank c || isBreak c

/-- Whether a text is at its end or at a break. -/
def atBreak : List Char → Bool
  | [] => true
  | c :: _ => isBreak c

/-- ASCII digits. -/
def isDigit (c : Char) : Bool := '0' ≤ c && c ≤ '9'

/-- Characters of names. -/
def isWordChar (c : Char) : Bool :=
  isDigit c || ('a' ≤ c && c ≤ 'z') || ('A' ≤ c && c ≤ 'Z') || c == '_' || c == '-'

/-- The value of a hexadecimal digit. -/
def hexValue? (c : Char) : Option Nat :=
  if '0' ≤ c ∧ c ≤ '9' then some (c.toNat - 48)
  else if 'a' ≤ c ∧ c ≤ 'f' then some (c.toNat - 87)
  else if 'A' ≤ c ∧ c ≤ 'F' then some (c.toNat - 55)
  else none

/-- Characters that may stand in a text. -/
def isAllowed (c : Char) : Bool :=
  let n := c.toNat
  n == 0x09 || n == 0x0a || n == 0x0d || (0x20 ≤ n && n ≤ 0x7e) || n == 0x85 ||
    (0xa0 ≤ n && n ≤ 0xd7ff) || (0xe000 ≤ n && n ≤ 0xfffd) || 0x10000 ≤ n

/-- Reads a carriage return, with or without a line feed behind it, and a next line character as a
line feed. -/
def unifyBreaks : List Char → List Char
  | [] => []
  | '\r' :: '\n' :: cs => '\n' :: unifyBreaks cs
  | c :: cs => (if c == '\r' || c == '\u0085' then '\n' else c) :: unifyBreaks cs

/-- A text without the byte order mark in front of it. -/
def dropMark : List Char → List Char
  | '\uFEFF' :: cs => cs
  | cs => cs

/-- The characters of a text with unified breaks, if all of them are allowed. -/
def readable? (cs : List Char) : Option (List Char) :=
  if cs.all isAllowed then some (unifyBreaks (dropMark (dropMark cs))) else none

/-- The marks of three equal characters at the start of a line that divide documents. -/
def isDivider (mark : Char) : List Char → Bool
  | a :: b :: c :: r => a == mark && b == mark && c == mark && atGap r
  | _ => false

/-- Whether a line starts with a mark that divides documents. -/
def atDivider (cs : List Char) : Bool := isDivider '-' cs || isDivider '.' cs

end HourlyPrices.Yaml
