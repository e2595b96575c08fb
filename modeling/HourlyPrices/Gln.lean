import HourlyPrices.Decimal.Text
import HourlyPrices.Text.Blank

/-!
# Global location numbers

A party of the electricity market is identified by a number of thirteen digits, the last of which is
a check digit: the digits before it are weighted by 3 and 1 in turn, beginning next to the check
digit, and the check digit completes the weighted sum to a multiple of ten.
-/

namespace HourlyPrices

/-- The identifying text of a party, which need not be a valid number. -/
structure Gln where
  text : String
  deriving DecidableEq

namespace Gln

/-- The number in a text, less surrounding blanks. -/
def ofText (s : String) : Gln := ⟨Text.trim s⟩

/-- Whether the text is empty. -/
def isEmpty (g : Gln) : Bool := g.text.isEmpty

/-- The sum of some digits, weighted by 3 and 1 in turn. -/
def weightedSum : List Nat → Nat
  | [] => 0
  | [d] => 3 * d
  | d :: e :: ds => 3 * d + e + weightedSum ds

/-- The check digit of the digits before it. -/
def checkDigit (body : List Nat) : Nat := (10 - weightedSum body.reverse % 10) % 10

/-- The digits among some characters. -/
def digits (cs : List Char) : List Nat := cs.filterMap Decimal.digitValue?

/-- The number of digits of a valid number. -/
def digitCount : Nat := 13

/-- Whether the text has thirteen bytes and thirteen digits, of which the last is the check digit of
the others. -/
def isValid (g : Gln) : Bool :=
  let ds := digits g.text.toList
  g.text.utf8ByteSize == digitCount && ds.length == digitCount &&
    ds.getLast? == some (checkDigit ds.dropLast)

/-- The number of the owner of the system tariffs and of the electricity tax. -/
def energinet : String := "5790000432752"

end Gln

end HourlyPrices
