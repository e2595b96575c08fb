import HourlyPrices.Fault
import HourlyPrices.Time.Pattern
import HourlyPrices.Time.Text

/-!
# The start of a request

Records are requested from a start on: a date, or an anchor that the data set resolves itself,
possibly with an offset of days, hours or minutes such as `-P1D` or `+PT24H`. The printed form of an
offset leaves out zero.
-/

namespace HourlyPrices

/-- An instant that the data set knows by name. -/
inductive Anchor where
  | now | utcNow | startOfDay | startOfMonth | startOfYear
  deriving DecidableEq

/-- The unit of an offset. -/
inductive OffsetUnit where
  | days | hours | minutes
  deriving DecidableEq

/-- An offset from an anchor, kept in its unit. -/
structure Offset where
  unit : OffsetUnit
  amount : Int
  deriving DecidableEq

/-- The start of a request. -/
inductive Start where
  | empty
  | date (d : Date)
  | anchored (anchor : Anchor) (offset : Option Offset)
  deriving DecidableEq

instance : Inhabited Start := ⟨.empty⟩

namespace Anchor

/-- All anchors. -/
def all : List Anchor := [now, utcNow, startOfDay, startOfMonth, startOfYear]

/-- The name of an anchor. -/
def name : Anchor → String
  | now => "Now"
  | utcNow => "UtcNow"
  | startOfDay => "StartOfDay"
  | startOfMonth => "StartOfMonth"
  | startOfYear => "StartOfYear"

/-- The anchor of a name, without regard to the case of ASCII letters. -/
def ofChars? (cs : List Char) : Option Anchor :=
  all.find? fun a => a.name.toList.map Text.lowerAscii == cs.map Text.lowerAscii

end Anchor

namespace Offset

/-- The seconds of a unit. -/
def unitSeconds : OffsetUnit → Int
  | .days => 86400
  | .hours => 3600
  | .minutes => 60

/-- The offset as a span of time, when it is representable. -/
def span? (o : Offset) : Option Span := (Span.ofSeconds (o.amount * unitSeconds o.unit)).checked

/-- The duration without its sign. -/
def magnitudeChars (o : Offset) : List Char :=
  let digits := Nat.toDigits 10 o.amount.natAbs
  match o.unit with
  | .days => 'P' :: digits ++ ['D']
  | .hours => 'P' :: 'T' :: digits ++ ['H']
  | .minutes => 'P' :: 'T' :: digits ++ ['M']

/-- Splits off the last character. -/
def splitLast : List Char → Option (List Char × Char)
  | [] => none
  | [c] => some ([], c)
  | c :: d :: cs => (splitLast (d :: cs)).map fun (front, last) => (c :: front, last)

/-- The value of a non-empty list of digits. -/
def digitsValue? (cs : List Char) : Option Nat :=
  if cs.isEmpty then none
  else cs.foldl (fun n c => n.bind fun n => (Decimal.digitValue? c).map (n * 10 + ·)) (some 0)

/-- An offset with digits for its amount, when it is representable. -/
def ofDigits? (unit : OffsetUnit) (digits : List Char) : Option Offset := do
  let n ← digitsValue? digits
  let o : Offset := ⟨unit, n⟩
  if n < 9223372036854775808 ∧ o.span?.isSome then some o else none

/-- Reads a duration of days, hours or minutes. -/
def ofMagnitude? (cs : List Char) : Option Offset :=
  match cs with
  | 'P' :: 'T' :: r =>
    match splitLast r with
    | some (digits, 'H') => ofDigits? .hours digits
    | some (digits, 'M') => ofDigits? .minutes digits
    | _ => none
  | 'P' :: r =>
    match splitLast r with
    | some (digits, 'D') => ofDigits? .days digits
    | _ => none
  | _ => none

end Offset

namespace Start

/-- Whether the request has no start. -/
def isEmpty (s : Start) : Bool := s == .empty

/-- The offset behind an anchor; zero is not shown. -/
def offsetChars : Option Offset → List Char
  | none => []
  | some o =>
    if o.amount < 0 then '-' :: o.magnitudeChars
    else if 0 < o.amount then '+' :: o.magnitudeChars
    else []

/-- The text of a start. -/
def toChars : Start → List Char
  | .empty => []
  | .date d => d.toChars
  | .anchored a o => a.name.toList ++ offsetChars o

/-- The text of a start. -/
def toText (s : Start) : String := String.ofList s.toChars

/-- Signs of an offset. -/
def isSign (c : Char) : Bool := c == '+' || c == '-'

/-- Reads an anchor with or without an offset. -/
def anchoredOfChars? (cs : List Char) : Option Start :=
  match cs.dropWhile (fun c => !isSign c) with
  | [] => (Anchor.ofChars? cs).map (.anchored · none)
  | sign :: r => do
    let o ← Offset.ofMagnitude? r
    let a ← Anchor.ofChars? (cs.takeWhile fun c => !isSign c)
    return .anchored a (some (if sign = '-' then { o with amount := -o.amount } else o))

/-- Reads a start from characters without surrounding blanks. -/
def ofTrimmed? (cs : List Char) : Option Start :=
  if cs.isEmpty then some .empty
  else match Time.readDate cs with
    | .ok d => some (.date d)
    | .error _ => anchoredOfChars? cs

/-- Reads a start. -/
def ofText (s : String) : Except Fault Start :=
  match ofTrimmed? (Text.trimChars s.toList) with
  | some start => .ok start
  | none => .error (.validation "start" ("Invalid date parameter '" ++ s ++ "'"))

end Start

end HourlyPrices
