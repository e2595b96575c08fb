import HourlyPrices.Decimal.Basic

/-!
# The text of a decimal

The printer shows every digit of the scale. The reader takes a sign, digits and at most one point;
underscores may stand between digits. Digits that do not fit after the point are rounded away, a
half upwards (a separator there counts as a zero); digits that do not fit before it are refused.
-/

namespace HourlyPrices.Decimal

/-! ## Printing -/

/-- Decimal digits of `n`, at least `width` of them. -/
def paddedDigits (width n : Nat) : List Char :=
  let ds := Nat.toDigits 10 n
  List.replicate (width - ds.length) '0' ++ ds

/-- The text of a coefficient size at a scale: the last `scale` digits stand behind the point. -/
def magnitudeText (c scale : Nat) : List Char :=
  if scale = 0 then Nat.toDigits 10 c
  else
    let ds := paddedDigits (scale + 1) c
    ds.take (ds.length - scale) ++ '.' :: ds.drop (ds.length - scale)

/-- The text of a decimal: all digits of its scale, and no sign for zero. -/
def toChars (a : Decimal) : List Char :=
  let text := magnitudeText a.num.natAbs a.scale
  if a.num < 0 then '-' :: text else text

/-- The text of a decimal. -/
def toText (a : Decimal) : String := String.ofList a.toChars

instance : ToString Decimal := ⟨toText⟩

/-! ## Reading -/

/-- The value of a decimal digit. -/
def digitValue? (c : Char) : Option Nat :=
  if '0' ≤ c ∧ c ≤ '9' then some (c.toNat - '0'.toNat) else none

/-- What has been read of a number: the coefficient, the fraction digits (`none` before the point)
and whether any digit has been seen. -/
structure Reading where
  coeff : Nat := 0
  fraction : Option Nat := none
  seen : Bool := false

/-- The number of fraction digits read. -/
def Reading.scale (r : Reading) : Nat := r.fraction.getD 0

/-- Takes one more digit. -/
def Reading.push (r : Reading) (d : Nat) : Reading :=
  { coeff := r.coeff * 10 + d, fraction := r.fraction.map (· + 1), seen := true }

/-- Rounds at a digit that no longer fits: a half goes up. A coefficient that reaches the bound
gives up one more digit. -/
def Reading.roundAt (r : Reading) (d : Nat) : Option (Nat × Nat) :=
  let c := if 5 ≤ d then r.coeff + 1 else r.coeff
  if c < coefficientBound then some (c, r.scale)
  else if r.scale = 0 then none
  else some ((c + 4) / 10, r.scale - 1)

/-- Only digits and separators. -/
def isDigitTail (cs : List Char) : Bool := cs.all fun c => (digitValue? c).isSome || c == '_'

/-- Reads the digits and the point of an unsigned number: its coefficient and scale. -/
def readMagnitude (r : Reading) : List Char → Option (Nat × Nat)
  | [] => if r.seen then some (r.coeff, r.scale) else none
  | c :: cs =>
    if c = '.' then
      if r.fraction.isNone then readMagnitude { r with fraction := some 0 } cs else none
    else if c = '_' then
      if !r.seen then none
      else if r.scale < maxScale then readMagnitude r cs
      else if isDigitTail cs then r.roundAt 0
      else none
    else match digitValue? c with
      | none => none
      | some d =>
        let next := r.push d
        if next.coeff < coefficientBound ∧ next.scale ≤ maxScale then readMagnitude next cs
        else if r.fraction.isNone then none
        else if isDigitTail cs then r.roundAt d
        else none

/-- Splits off a leading sign. -/
def splitSign : List Char → Bool × List Char
  | '-' :: cs => (true, cs)
  | '+' :: cs => (false, cs)
  | cs => (false, cs)

/-- Reads a number without an exponent. -/
def ofChars? (cs : List Char) : Option Decimal :=
  let (neg, body) := splitSign cs
  match readMagnitude {} body with
  | some (c, s) => ofParts? (if neg then -(c : Int) else c) s
  | none => none

/-- Reads a number without an exponent. -/
def ofText? (s : String) : Option Decimal := ofChars? s.toList

/-! ## Numbers with an exponent -/

/-- Takes all zeros off the end of the fraction. -/
def trimZeros (a : Decimal) : Decimal :=
  go a.num a.scale a.num_lt a.scale_le
where
  go (n : Int) : (s : Nat) → n.natAbs < coefficientBound → s ≤ maxScale → Decimal
    | 0, h, _ => ⟨n, 0, h, Nat.zero_le _⟩
    | s + 1, h, hs =>
      if n % 10 = 0 then go (n / 10) s (by omega) (by omega) else ⟨n, s + 1, h, hs⟩

/-- The value of a non-empty list of digits, which a plus sign may precede. -/
def exponentValue? (cs : List Char) : Option Nat :=
  let ds := match cs with
    | '+' :: r => r
    | r => r
  if ds.isEmpty then none
  else ds.foldl (fun acc c => acc.bind fun n => (digitValue? c).map (n * 10 + ·)) (some 0)

/-- Moves the point of `a` by an exponent: a negative one adds to the scale, a positive one lowers
it, and one beyond the scale multiplies and takes off trailing zeros. -/
def shift? (a : Decimal) (neg : Bool) (e : Nat) : Option Decimal :=
  if e > maxScale then none
  else if neg then ofParts? a.num (a.scale + e)
  else if e ≤ a.scale then ofParts? a.num (a.scale - e)
  else (ofScaled? (a.num * tenTo e) a.scale).map trimZeros

/-- Reads `base e exponent`. -/
def ofScientific? (cs : List Char) : Option Decimal :=
  let isMark := fun c : Char => c == 'e' || c == 'E'
  match cs.dropWhile (fun c => !isMark c) with
  | [] => none
  | _ :: ex =>
    let (neg, digits) := match ex with
      | '-' :: r => (true, r)
      | r => (false, r)
    match ofChars? (cs.takeWhile fun c => !isMark c), exponentValue? digits with
    | some a, some e => shift? a neg e
    | _, _ => none

/-- Reads a number with or without an exponent. -/
def ofAnyChars? (cs : List Char) : Option Decimal := (ofChars? cs).or (ofScientific? cs)

/-- Reads a number with or without an exponent. -/
def ofAnyText? (s : String) : Option Decimal := ofAnyChars? s.toList

end HourlyPrices.Decimal
