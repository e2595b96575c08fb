/-!
# JSON values and their text

A value keeps what its text shows: the digits of a number as they were written, and the members of
an object in their order and with their repetitions. The writer puts no blanks between tokens.
-/

namespace HourlyPrices

/-- A JSON value. `halved` is a string, or an object one of whose keys, in which an escape names
half of a surrogate pair: well formed, but without a text. -/
inductive Json where
  | null
  | bool (b : Bool)
  | number (text : String)
  | string (s : String)
  | array (items : List Json)
  | object (members : List (String × Json))
  | halved

namespace Json

instance : Inhabited Json := ⟨.null⟩

/-- The digit of a number below 16, with small letters. -/
def hexDigit (n : Nat) : Char := if n < 10 then Char.ofNat (48 + n) else Char.ofNat (87 + n)

/-- A character inside of a string: quotes, backslashes and control characters are escaped. -/
def escapeChar (c : Char) : List Char :=
  if c = '"' then ['\\', '"']
  else if c = '\\' then ['\\', '\\']
  else if c = '\n' then ['\\', 'n']
  else if c = '\r' then ['\\', 'r']
  else if c = '\t' then ['\\', 't']
  else if c = '\x08' then ['\\', 'b']
  else if c = '\x0c' then ['\\', 'f']
  else if c.toNat < 32 then ['\\', 'u', '0', '0', hexDigit (c.toNat / 16), hexDigit (c.toNat % 16)]
  else [c]

/-- A string between quotes. -/
def quote (s : String) : List Char := '"' :: s.toList.flatMap escapeChar ++ ['"']

mutual

/-- The text of a value. -/
def toChars : Json → List Char
  | .null => ['n', 'u', 'l', 'l']
  | .bool true => ['t', 'r', 'u', 'e']
  | .bool false => ['f', 'a', 'l', 's', 'e']
  | .number text => text.toList
  | .string s => quote s
  | .array items => '[' :: itemChars items ++ [']']
  | .object members => '\x7b' :: memberChars members ++ ['\x7d']
  | .halved => quote "\uFFFD"

/-- The text of array items, with commas between them. -/
def itemChars : List Json → List Char
  | [] => []
  | [v] => v.toChars
  | v :: w :: vs => v.toChars ++ ',' :: itemChars (w :: vs)

/-- The text of object members, with commas between them. -/
def memberChars : List (String × Json) → List Char
  | [] => []
  | [(k, v)] => quote k ++ ':' :: v.toChars
  | (k, v) :: m :: ms => quote k ++ ':' :: v.toChars ++ ',' :: memberChars (m :: ms)

end

/-- The text of a value. -/
def toText (v : Json) : String := String.ofList v.toChars

/-- The member of an object with this key; of several, the last. -/
def member? (v : Json) (key : String) : Option Json :=
  match v with
  | .object ms => (ms.reverse.find? (·.1 == key)).map (·.2)
  | _ => none

end Json

end HourlyPrices
