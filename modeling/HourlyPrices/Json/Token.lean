import HourlyPrices.Json.Basic

/-!
# The tokens of a JSON text

A text is cut into tokens one character at a time. Numbers, words and strings are collected until a
character ends them; a word or number that is none makes the text no JSON.
-/

namespace HourlyPrices.Json

/-- A token. The text of a string is missing when an escape names half of a surrogate pair. -/
inductive Token where
  | openArray | closeArray | openObject | closeObject
  | comma | colon
  | null | bool (b : Bool) | number (text : String) | string (s : Option String)
  deriving DecidableEq

/-- What has been read of a string, last character first, and whether it has lost its text. -/
structure Partial where
  chars : List Char := []
  halved : Bool := false

/-- The string, if it has a text. -/
def Partial.text (p : Partial) : Option String :=
  if p.halved then none else some (String.ofList p.chars.reverse)

/-- Appends a character. -/
def Partial.push (p : Partial) (c : Char) : Partial := { p with chars := c :: p.chars }

/-- The string has lost its text. -/
def Partial.halve (p : Partial) : Partial := { p with halved := true }

/-- Where the reader stands between two characters. -/
inductive Position where
  | between
  | word (chars : List Char)
  | number (chars : List Char)
  | string (p : Partial)
  /-- Behind a backslash; `high` is the first half of a surrogate pair just read. -/
  | escape (p : Partial) (high : Option Nat)
  /-- Behind `\u` and some of its four digits, of the given value. -/
  | unicode (p : Partial) (high : Option Nat) (left : Nat) (value : Nat)
  /-- Behind the first half of a surrogate pair. -/
  | afterHigh (p : Partial) (high : Nat)

/-- The blanks that may stand between tokens. -/
def isSpace (c : Char) : Bool := c == ' ' || c == '\t' || c == '\n' || c == '\r'

/-- Characters that numbers are made of. -/
def isNumberChar (c : Char) : Bool :=
  ('0' ≤ c && c ≤ '9') || c == '-' || c == '+' || c == '.' || c == 'e' || c == 'E'

/-- ASCII digits. -/
def isDigit (c : Char) : Bool := '0' ≤ c && c ≤ '9'

/-- An exponent is a mark, a sign at most, and digits. -/
def isExponent : List Char → Bool
  | [] => true
  | m :: cs =>
    let digits := match cs with
      | '+' :: r => r
      | '-' :: r => r
      | r => r
    (m == 'e' || m == 'E') && !digits.isEmpty && digits.all isDigit

/-- A fraction is a point and digits; an exponent may follow. -/
def isFractionExponent : List Char → Bool
  | '.' :: cs => (cs.takeWhile isDigit != []) && isExponent (cs.dropWhile isDigit)
  | cs => isExponent cs

/-- A number has a minus sign at most, digits without a leading zero, a fraction at most and an
exponent at most. -/
def isNumber (cs : List Char) : Bool :=
  let body := match cs with
    | '-' :: r => r
    | r => r
  match body with
  | '0' :: r => isFractionExponent r
  | c :: r => isDigit c && isFractionExponent (r.dropWhile isDigit)
  | [] => false

/-- The token of a word. -/
def wordToken (cs : List Char) : Option Token :=
  if cs = ['n', 'u', 'l', 'l'] then some .null
  else if cs = ['t', 'r', 'u', 'e'] then some (.bool true)
  else if cs = ['f', 'a', 'l', 's', 'e'] then some (.bool false)
  else none

/-- The token of a number. -/
def numberToken (cs : List Char) : Option Token :=
  if isNumber cs then some (.number (String.ofList cs)) else none

/-- What a character that no token continues yields: at most one token, and where the reader stands
behind it. -/
def beginToken (c : Char) : Option (List Token × Position) :=
  if isSpace c then some ([], .between)
  else if c = '[' then some ([.openArray], .between)
  else if c = ']' then some ([.closeArray], .between)
  else if c = '\x7b' then some ([.openObject], .between)
  else if c = '\x7d' then some ([.closeObject], .between)
  else if c = ',' then some ([.comma], .between)
  else if c = ':' then some ([.colon], .between)
  else if c = '"' then some ([], .string {})
  else if isNumberChar c && c != 'e' && c != 'E' then some ([], .number [c])
  else if 'a' ≤ c ∧ c ≤ 'z' then some ([], .word [c])
  else none

/-- The value of a hexadecimal digit. -/
def hexValue? (c : Char) : Option Nat :=
  if '0' ≤ c ∧ c ≤ '9' then some (c.toNat - 48)
  else if 'a' ≤ c ∧ c ≤ 'f' then some (c.toNat - 87)
  else if 'A' ≤ c ∧ c ≤ 'F' then some (c.toNat - 55)
  else none

/-- The character of a single letter escape. -/
def escapedChar? (c : Char) : Option Char :=
  if c = '"' ∨ c = '\\' ∨ c = '/' then some c
  else if c = 'b' then some '\x08'
  else if c = 'f' then some '\x0c'
  else if c = 'n' then some '\n'
  else if c = 'r' then some '\r'
  else if c = 't' then some '\t'
  else none

/-- First halves of surrogate pairs. -/
def isHigh (n : Nat) : Bool := 0xd800 ≤ n && n ≤ 0xdbff

/-- Second halves of surrogate pairs. -/
def isLow (n : Nat) : Bool := 0xdc00 ≤ n && n ≤ 0xdfff

/-- Where the reader stands behind a four-digit escape of value `n`. -/
def afterUnicode (p : Partial) (high : Option Nat) (n : Nat) : Position :=
  match high with
  | some h =>
    if isLow n then .string (p.push (Char.ofNat (0x10000 + (h - 0xd800) * 1024 + (n - 0xdc00))))
    else if isHigh n then .afterHigh p.halve n
    else .string p.halve
  | none =>
    if isHigh n then .afterHigh p n
    else if isLow n then .string p.halve
    else .string (p.push (Char.ofNat n))

/-- What a character inside of a string yields. -/
def stringStep (p : Partial) (c : Char) : Option (List Token × Position) :=
  if c = '"' then some ([.string p.text], .between)
  else if c = '\\' then some ([], .escape p none)
  else if c.toNat < 32 then none
  else some ([], .string (p.push c))

/-- What the next character yields: at most two tokens, and where the reader stands behind it. -/
def Position.step (c : Char) : Position → Option (List Token × Position)
  | .between => beginToken c
  | .word cs =>
    if 'a' ≤ c ∧ c ≤ 'z' then some ([], .word (c :: cs))
    else do
      let t ← wordToken cs.reverse
      let (ts, q) ← beginToken c
      return (t :: ts, q)
  | .number cs =>
    if isNumberChar c then some ([], .number (c :: cs))
    else do
      let t ← numberToken cs.reverse
      let (ts, q) ← beginToken c
      return (t :: ts, q)
  | .string p => stringStep p c
  | .escape p high =>
    if c = 'u' then some ([], .unicode p high 4 0)
    else do
      let d ← escapedChar? c
      return ([], .string ((if high.isSome then p.halve else p).push d))
  | .unicode p high left value => do
    let d ← hexValue? c
    let n := value * 16 + d
    if left ≤ 1 then return ([], afterUnicode p high n)
    else return ([], .unicode p high (left - 1) n)
  | .afterHigh p h => if c = '\\' then some ([], .escape p (some h)) else stringStep p.halve c

/-- The tokens that the end of the text yields. -/
def Position.finish : Position → Option (List Token)
  | .between => some []
  | .word cs => (wordToken cs.reverse).map ([·])
  | .number cs => (numberToken cs.reverse).map ([·])
  | _ => none

/-- The tokens of the rest of a text. -/
def tokensFrom : Position → List Char → Option (List Token)
  | q, [] => q.finish
  | q, c :: cs => do
    let (ts, q) ← q.step c
    let rest ← tokensFrom q cs
    return ts ++ rest

/-- The tokens of a text. -/
def tokens (cs : List Char) : Option (List Token) := tokensFrom .between cs

end HourlyPrices.Json
