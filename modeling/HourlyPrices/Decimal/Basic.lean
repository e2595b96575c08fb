/-!
# Decimals with 96-bit coefficients

A decimal is an integer coefficient below `2 ^ 96` in size together with a scale of at most 28: it
stands for `num / 10 ^ scale`. The scale is part of the value, since it is printed. Every
operation that may leave this range answers `none` instead of a wrong number.
-/

namespace HourlyPrices

/-- Coefficients stay below this bound in size; it is the 96th power of two. -/
def coefficientBound : Nat := 79228162514264337593543950336

/-- The most fraction digits a decimal can have. -/
def maxScale : Nat := 28

/-- A power of ten. -/
abbrev tenTo (k : Nat) : Nat := Nat.pow 10 k

/-- A decimal number `num / 10 ^ scale`. -/
structure Decimal where
  num : Int
  scale : Nat
  num_lt : num.natAbs < coefficientBound := by decide
  scale_le : scale ≤ maxScale := by decide
  deriving DecidableEq

namespace Decimal

instance : Inhabited Decimal := ⟨⟨0, 0, by decide, by decide⟩⟩

/-- Zero without fraction digits. -/
def zero : Decimal := { num := 0, scale := 0 }

/-- One without fraction digits. -/
def one : Decimal := { num := 1, scale := 0 }

/-- The decimal with these parts, when they are in range. -/
def ofParts? (num : Int) (scale : Nat) : Option Decimal :=
  if h : num.natAbs < coefficientBound ∧ scale ≤ maxScale then some ⟨num, scale, h.1, h.2⟩ else none

/-- An integer as a decimal without fraction digits. -/
def ofInt? (n : Int) : Option Decimal := ofParts? n 0

/-! ## Rounding to the range -/

/-- The integer nearest to `n / d`; a half goes to the even neighbour. -/
def roundHalfEven (n d : Nat) : Nat :=
  let q := n / d
  let r := n % d
  if 2 * r < d then q
  else if d < 2 * r then q + 1
  else if q % 2 = 0 then q else q + 1

/-- Rounds `c / 10 ^ s` once, at the largest scale up to `t` at which the coefficient fits. -/
def fitAt (c s : Nat) : Nat → Option (Nat × Nat)
  | 0 =>
    let c' := roundHalfEven c (tenTo s)
    if c' < coefficientBound then some (c', 0) else none
  | t + 1 =>
    let c' := roundHalfEven c (tenTo (s - (t + 1)))
    if c' < coefficientBound then some (c', t + 1) else fitAt c s t

/-- An integer with the sign of `n` and the size `c`. -/
def withSignOf (n : Int) (c : Nat) : Int := if n < 0 then -(c : Int) else c

/-- The decimal nearest to `n / 10 ^ s` with as many of its `s` fraction digits as fit. -/
def ofScaled? (n : Int) (s : Nat) : Option Decimal :=
  match fitAt n.natAbs s (min s maxScale) with
  | some (c, t) => ofParts? (withSignOf n c) t
  | none => none

/-! ## Sum and product -/

/-- The sum at the larger of both scales, rounded when it does not fit. A zero operand leaves the
other one as it is. -/
def add? (a b : Decimal) : Option Decimal :=
  if a.num = 0 then some b
  else if b.num = 0 then some a
  else
    let s := max a.scale b.scale
    ofScaled? (a.num * tenTo (s - a.scale) + b.num * tenTo (s - b.scale)) s

/-- The product at the sum of both scales, rounded when it does not fit. Zero times anything is
zero without fraction digits. -/
def mul? (a b : Decimal) : Option Decimal :=
  if a.num = 0 ∨ b.num = 0 then some zero
  else ofScaled? (a.num * b.num) (a.scale + b.scale)

/-! ## Quotient by a positive integer -/

/-- The largest `x` up to the given one by which a coefficient `c` at scale `s` can be extended. -/
def headroom (c s : Nat) : Nat → Nat
  | 0 => 0
  | x + 1 =>
    if c ≤ (coefficientBound - 1) / tenTo (x + 1) ∧ s + (x + 1) ≤ maxScale then x + 1
    else headroom c s x

theorem headroom_le (c s x : Nat) : headroom c s x = 0 ∨ s + headroom c s x ≤ maxScale := by
  induction x with
  | zero => exact .inl rfl
  | succ x ih =>
    unfold headroom
    split
    · rename_i h
      exact .inr h.2
    · exact ih

/-- The most digits by which a quotient is extended at once. -/
def stepDigits : Nat := 9

theorem scale_measure_lt {c s x : Nat} (h : ¬ headroom c s x = 0) :
    maxScale - (s + headroom c s x) < maxScale - s := by
  have := (headroom_le c s x).resolve_left h
  omega

/-- Gives up the last digit of `q`, with a half (nothing of which `more` says was cut off before)
going to the even neighbour. -/
def dropDigit (q : Nat) (more : Bool) : Nat :=
  let r := q % 10
  let h := q / 10
  if 5 < r ∨ (r = 5 ∧ (more ∨ h % 2 = 1)) then h + 1 else h

/-- Extends the quotient `q` at scale `s` by digits of the remainder `r` to the divisor `d` until
nothing remains or no further digit fits; then the remainder is rounded. -/
def extendQuotient (d q r s : Nat) : Nat × Nat :=
  if r = 0 then (q, s)
  else if h : headroom q s stepDigits = 0 then
    (if 2 * r < d then q else if d < 2 * r ∨ q % 2 = 1 then q + 1 else q, s)
  else
    let p := tenTo (headroom q s stepDigits)
    let q' := q * p + r * p / d
    if q' < coefficientBound then
      extendQuotient d q' (r * p % d) (s + headroom q s stepDigits)
    else (dropDigit q' (r * p % d ≠ 0), s + headroom q s stepDigits - 1)
termination_by maxScale - s
decreasing_by exact scale_measure_lt h

/-- Takes `k` zeros off at once, if they are there and the coefficient is a multiple of `m`. -/
def dropZeros (k m : Nat) : Nat × Nat → Nat × Nat
  | (c, s) => if c % m = 0 ∧ k ≤ s ∧ c % tenTo k = 0 then (c / tenTo k, s - k) else (c, s)

/-- Takes zeros off eight at a time, as long as the low 32 bits of the coefficient are clear. -/
def dropEightZeros (c s : Nat) : Nat × Nat :=
  if h : c % 4294967296 = 0 ∧ 8 ≤ s ∧ c % tenTo 8 = 0 then dropEightZeros (c / tenTo 8) (s - 8)
  else (c, s)
termination_by s
decreasing_by omega

/-- Shortens a quotient by some of its trailing zeros: eights, then at most once each four, two
and one. -/
def shorten (c s : Nat) : Nat × Nat :=
  dropZeros 1 2 (dropZeros 2 4 (dropZeros 4 16 (dropEightZeros c s)))

/-- The quotient of coefficient `c` at scale `s` by `d`, and its scale. An even division keeps the
scale; any other is extended by further digits and shortened again. -/
def quotient (c s d : Nat) : Nat × Nat :=
  if c % d = 0 then (c / d, s)
  else
    let (q, t) := extendQuotient d (c / d) (c % d) s
    shorten q t

/-- The quotient by a positive integer. -/
def divNat? (a : Decimal) (d : Nat) : Option Decimal :=
  if d = 0 then none
  else if a.num = 0 then some zero
  else
    let (q, s) := quotient a.num.natAbs a.scale d
    ofScaled? (withSignOf a.num q) s

end Decimal

end HourlyPrices
