/-!
# Text in UTF-8

The text of bytes that should be UTF-8. Where they are not, the longest part that could have begun a
character becomes one replacement character.
-/

namespace HourlyPrices.Text

/-- A character of which some bytes are still missing, the next of them within bounds. -/
structure Unfinished where
  missing : Nat
  low : Nat
  high : Nat
  value : Nat

/-- The character that stands for bytes that are none. -/
def replacement : Char := '\ufffd'

/-- What a byte at the start of a character gives: characters, and one that it begins. -/
def beginChar (b : Nat) : List Char × Option Unfinished :=
  if b < 0x80 then ([Char.ofNat b], none)
  else if b < 0xc2 then ([replacement], none)
  else if b < 0xe0 then ([], some ⟨1, 0x80, 0xbf, b % 32⟩)
  else if b < 0xf0 then
    ([], some ⟨2, if b = 0xe0 then 0xa0 else 0x80, if b = 0xed then 0x9f else 0xbf, b % 16⟩)
  else if b < 0xf5 then
    ([], some ⟨3, if b = 0xf0 then 0x90 else 0x80, if b = 0xf4 then 0x8f else 0xbf, b % 8⟩)
  else ([replacement], none)

/-- Reads bytes behind what has been begun. -/
def readUtf8 : Option Unfinished → List Nat → List Char
  | none, [] => []
  | some _, [] => [replacement]
  | none, b :: bs =>
    let (cs, u) := beginChar b
    cs ++ readUtf8 u bs
  | some u, b :: bs =>
    if u.low ≤ b ∧ b ≤ u.high then
      let value := u.value * 64 + b % 64
      if u.missing = 1 then Char.ofNat value :: readUtf8 none bs
      else readUtf8 (some ⟨u.missing - 1, 0x80, 0xbf, value⟩) bs
    else
      let (cs, v) := beginChar b
      replacement :: cs ++ readUtf8 v bs

/-- The text of some bytes. -/
def ofUtf8 (bytes : List UInt8) : String :=
  String.ofList (readUtf8 none (bytes.map UInt8.toNat))

end HourlyPrices.Text
