import HourlyPrices.Yaml.Character

/-!
# What plain scalars mean

A plain scalar may stand for null, a truth value or a number; all other scalars are text. Which of
these it is depends on the field that it is read for: a field of text takes any scalar. A writer has
to put text between quotes that would be read as something else.
-/

namespace HourlyPrices.Yaml

/-- The words for null. -/
def isNullWord (s : String) : Bool := s == "null" || s == "Null" || s == "NULL" || s == "~"

/-- The truth value of a word. -/
def truth? (s : String) : Option Bool :=
  if s == "true" || s == "True" || s == "TRUE" then some true
  else if s == "false" || s == "False" || s == "FALSE" then some false
  else none

/-! ## Integers -/

/-- The value of a digit in a base of at most sixteen. -/
def digitIn? (base : Nat) (c : Char) : Option Nat :=
  match hexValue? c with
  | some d => if d < base then some d else none
  | none => none

/-- The value of digits in a base; there must be at least one. -/
def digitsValue? (base : Nat) (cs : List Char) : Option Nat :=
  if cs.isEmpty then none
  else cs.foldl (fun n c => do return (← n) * base + (← digitIn? base c)) (some 0)

/-- Digits in base 16, 8 or 2 behind the mark of the base. -/
def markedValue? : List Char → Option Nat
  | '0' :: 'x' :: cs => digitsValue? 16 cs
  | '0' :: 'o' :: cs => digitsValue? 8 cs
  | '0' :: 'b' :: cs => digitsValue? 2 cs
  | _ => none

/-- Whether a text, less a sign, is a zero with nothing but digits behind it. -/
def hasLeadingZero (cs : List Char) : Bool :=
  let body := match cs with
    | '+' :: r => r
    | '-' :: r => r
    | r => r
  match body with
  | '0' :: c :: r => (c :: r).all isDigit
  | _ => false

/-- Whether a text starts with a sign. -/
def hasSign : List Char → Bool
  | c :: _ => c == '+' || c == '-'
  | [] => false

/-- The value of an integer without a minus sign. -/
def naturalOf? (cs : List Char) : Option Nat :=
  let body := match cs with
    | '+' :: r => r
    | r => r
  match markedValue? body with
  | some n => some n
  | none => if hasSign body || hasLeadingZero cs then none else digitsValue? 10 body

/-- The size of an integer with a minus sign. -/
def negativeOf? (cs : List Char) : Option Nat :=
  match cs with
  | '-' :: body =>
    match markedValue? body with
    | some n => some n
    | none => if hasLeadingZero cs then none else digitsValue? 10 body
  | _ => none

/-- Whether a text is an integer of 128 bits. -/
def isInteger (cs : List Char) : Bool :=
  (naturalOf? cs).any (· < Nat.pow 2 128) || (negativeOf? cs).any (· ≤ Nat.pow 2 127)

/-! ## Fractions -/

/-- The first number that does not round to a double. -/
def doubleBound : Nat := Nat.pow 2 1024 - Nat.pow 2 970

/-- Whether `mantissa * 10 ^ exponent` rounds to a double. Powers that are too large to matter are
not computed. -/
def roundsToDouble (mantissa : Nat) (exponent : Int) : Bool :=
  if mantissa = 0 ∨ exponent ≤ 0 then
    mantissa < doubleBound * Nat.pow 10 (min exponent.natAbs (Nat.log2 mantissa + 1))
  else if 309 < exponent then false
  else mantissa * Nat.pow 10 exponent.natAbs < doubleBound

/-- The value of an exponent: a mark, a sign at most, and digits; zero when there is none. -/
def exponentOf? : List Char → Option Int
  | [] => some 0
  | m :: cs =>
    if m == 'e' || m == 'E' then
      match cs with
      | '-' :: r => (digitsValue? 10 r).map fun n => -(n : Int)
      | '+' :: r => (digitsValue? 10 r).map fun n => (n : Int)
      | r => (digitsValue? 10 r).map fun n => (n : Int)
    else none

/-- Whether a text without a plus sign is a decimal fraction that rounds to a double. -/
def isDecimalFraction (cs : List Char) : Bool :=
  let body := match cs with
    | '-' :: r => r
    | r => r
  let whole := body.takeWhile isDigit
  let afterWhole := body.drop whole.length
  let (fraction, rest) := match afterWhole with
    | '.' :: r => (r.takeWhile isDigit, r.dropWhile isDigit)
    | r => ([], r)
  match digitsValue? 10 (whole ++ fraction), exponentOf? rest with
  | some m, some e => roundsToDouble m (e - fraction.length)
  | _, _ => false

/-- The words for infinity, and for what is no number. -/
def isSpecialFraction (s : String) : Bool :=
  s ∈ [".inf", ".Inf", ".INF", "+.inf", "+.Inf", "+.INF", "-.inf", "-.Inf", "-.INF",
    ".nan", ".NaN", ".NAN"]

/-- Whether a text is a fraction. -/
def isFraction (s : String) : Bool :=
  isSpecialFraction s ||
    match s.toList with
    | '+' :: r => !hasSign r && isDecimalFraction r
    | cs => isDecimalFraction cs

/-- Whether a text would be read as something else if it were written plain. -/
def needsQuotes (s : String) : Bool :=
  s.isEmpty || isNullWord s || (truth? s).isSome || isInteger s.toList ||
    hasLeadingZero s.toList || isFraction s

end HourlyPrices.Yaml
