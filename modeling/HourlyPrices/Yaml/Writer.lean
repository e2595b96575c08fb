import HourlyPrices.Json.Basic
import HourlyPrices.Yaml.Meaning

/-!
# Writing YAML

A value is written as blocks: the members of an object on lines of their own, two columns behind the
key that they belong to, and the items of an array behind dashes at the column of their key. A text
is written plain if it reads back as itself, as a literal block if it has several lines, and else
between quotes; only double quotes can hold every character.
-/

namespace HourlyPrices.Yaml

/-! ## Texts -/

/-- Characters that need no escape, as far as they are no line breaks. -/
def isPrintable (c : Char) : Bool :=
  let n := c.toNat
  n == 0x0a || (0x20 ≤ n && n ≤ 0x7e) || (0xa0 ≤ n && n ≤ 0xd7ff) ||
    (0xe000 ≤ n && n ≤ 0xfffd && n != 0xfeff) || 0x10000 ≤ n

/-- Whether a character that passes `p` is directly followed by one that passes `q`. -/
def hasPair (p q : Char → Bool) : List Char → Bool
  | c :: d :: cs => (p c && q d) || hasPair p q (d :: cs)
  | _ => false

/-- Whether a colon ends a key somewhere, or a number sign starts a comment, behind a character. -/
def hasInnerMark : List Char → Bool
  | c :: d :: cs =>
    (d == ':' && atGap cs) || (d == '#' && (isBlank c || isBreak c)) || hasInnerMark (d :: cs)
  | _ => false

/-- Characters at which no plain text may start. -/
def isLeadingMark (c : Char) : Bool :=
  c == '#' || c == ',' || c == '[' || c == ']' || c == '\x7b' || c == '\x7d' || c == '&' ||
    c == '*' || c == '!' || c == '|' || c == '>' || c == '\'' || c == '"' || c == '%' ||
    c == '@' || c == '\x60'

/-- Whether a text starts with a mark that would not be read as part of it. -/
def startsWithMark : List Char → Bool
  | '-' :: '-' :: '-' :: _ => true
  | '.' :: '.' :: '.' :: _ => true
  | c :: cs => isLeadingMark c || ((c == '?' || c == ':' || c == '-') && atGap cs)
  | [] => false

/-- Spaces. -/
def isSpace (c : Char) : Bool := c == ' '

/-- Whether a text can be quoted or written as a block: all characters are printable, and no space
stands before a break. -/
def isTidy (cs : List Char) : Bool := cs.all isPrintable && !hasPair isSpace isBreak cs

/-- Whether a text can be written plain. -/
def allowsPlain (cs : List Char) : Bool :=
  isTidy cs && !cs.any isBreak && !startsWithMark cs && !hasInnerMark cs &&
    !cs.head?.any isSpace && !cs.getLast?.any isSpace

/-- Whether a text can be written between single quotes. -/
def allowsQuotes (cs : List Char) : Bool := isTidy cs && !hasPair isBreak isSpace cs

/-- Whether a text can be written as a literal block. -/
def allowsLiteral (cs : List Char) : Bool := isTidy cs && !cs.getLast?.any isSpace

/-- Spaces up to a column. -/
def spaces (n : Nat) : List Char := List.replicate n ' '

/-- The characters of a text, each line after the first that is not empty indented by `indent`. -/
def indentLines (indent : Nat) (atStart : Bool) : List Char → List Char
  | [] => []
  | c :: cs =>
    if isBreak c then c :: indentLines indent true cs
    else (if atStart then spaces indent else []) ++ c :: indentLines indent false cs

/-- A text between single quotes, which are doubled inside. -/
def singleQuoted (indent : Nat) (cs : List Char) : List Char :=
  let doubled := cs.flatMap fun c => if c == '\'' then ['\'', '\''] else [c]
  let inner := indentLines indent false doubled
  '\'' :: inner ++ (if cs.getLast?.any isBreak then spaces indent else []) ++ ['\'']

/-- The digits of a number in base sixteen, with capital letters. -/
def hexDigits (width n : Nat) : List Char :=
  match width with
  | 0 => []
  | w + 1 =>
    let d := n / Nat.pow 16 w % 16
    (if d < 10 then Char.ofNat (48 + d) else Char.ofNat (55 + d)) :: hexDigits w n

/-- The letter of an escape, if the character has one. -/
def escapeLetter? (c : Char) : Option Char :=
  match c with
  | '\x00' => some '0'
  | '\x07' => some 'a'
  | '\x08' => some 'b'
  | '\t' => some 't'
  | '\n' => some 'n'
  | '\x0b' => some 'v'
  | '\x0c' => some 'f'
  | '\r' => some 'r'
  | '\x1b' => some 'e'
  | '"' => some '"'
  | '\\' => some '\\'
  | '\u0085' => some 'N'
  | '\u2028' => some 'L'
  | '\u2029' => some 'P'
  | _ => none

/-- A character between double quotes. -/
def escaped (c : Char) : List Char :=
  match escapeLetter? c with
  | some l => ['\\', l]
  | none =>
    if isPrintable c then [c]
    else if c.toNat ≤ 0xff then '\\' :: 'x' :: hexDigits 2 c.toNat
    else if c.toNat ≤ 0xffff then '\\' :: 'u' :: hexDigits 4 c.toNat
    else '\\' :: 'U' :: hexDigits 8 c.toNat

/-- A text between double quotes. -/
def doubleQuoted (cs : List Char) : List Char := '"' :: cs.flatMap escaped ++ ['"']

/-- The head of a literal block: its indentation if its first character hides it, and how the breaks
at its end are kept. -/
def literalHead (cs : List Char) : List Char :=
  let indentation := if cs.head?.any fun c => isSpace c || isBreak c then ['2'] else []
  let chomping := match cs.reverse with
    | c :: rest => if !isBreak c then ['-'] else
        match rest with
        | [] => ['+']
        | d :: _ => if isBreak d then ['+'] else []
    | [] => ['-']
  '|' :: indentation ++ chomping

/-- A text as a literal block whose lines are indented by `indent`. -/
def literalBlock (indent : Nat) (cs : List Char) : List Char :=
  literalHead cs ++ '\n' :: indentLines indent true cs

/-- A text, of whose lines all but the first are indented by `indent`. -/
def textChars (indent : Nat) (s : String) : List Char :=
  let cs := s.toList
  if cs.contains '\n' then
    if allowsLiteral cs then literalBlock indent cs else doubleQuoted cs
  else if allowsPlain cs && !needsQuotes s then cs
  else if allowsQuotes cs then singleQuoted indent cs
  else doubleQuoted cs

/-! ## Values -/

/-- Ends a line, unless a break has just ended it. -/
def endLine (cs : List Char) : List Char := if cs.getLast?.any isBreak then cs else cs ++ ['\n']

mutual

/-- What follows a key or dash in a block at column `indent`, where the dashes of items stand at
column `dash`. -/
def valueChars (indent dash : Nat) : Json → List Char
  | .null => [' ', 'n', 'u', 'l', 'l', '\n']
  | .bool true => [' ', 't', 'r', 'u', 'e', '\n']
  | .bool false => [' ', 'f', 'a', 'l', 's', 'e', '\n']
  | .number text => ' ' :: text.toList ++ ['\n']
  | .string s => ' ' :: endLine (textChars (indent + 2) s)
  | .array [] => [' ', '[', ']', '\n']
  | .array (v :: vs) => '\n' :: itemLines dash (v :: vs)
  | .object [] => [' ', '\x7b', '\x7d', '\n']
  | .object (m :: ms) => '\n' :: memberLines (indent + 2) (m :: ms)
  | .halved => [' ', '\'', '\'', '\n']

/-- The items of an array behind dashes at column `indent`. -/
def itemLines (indent : Nat) : List Json → List Char
  | [] => []
  | v :: vs => spaces indent ++ '-' :: valueChars indent (indent + 2) v ++ itemLines indent vs

/-- The members of an object at column `indent`. -/
def memberLines (indent : Nat) : List (String × Json) → List Char
  | [] => []
  | (k, v) :: ms =>
    spaces indent ++ textChars (indent + 2) k ++ ':' :: valueChars indent indent v ++
      memberLines indent ms

end

/-- The text of an object. -/
def write (members : List (String × Json)) : String := String.ofList (memberLines 0 members)

end HourlyPrices.Yaml
