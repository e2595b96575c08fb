import HourlyPrices.Yaml.Character

/-!
# Places and gaps in a YAML text

A place is what is still to be read, with its line and column. The blanks and breaks between two
words of a scalar form a gap: within a line it is kept as it is, over a single break it becomes a
space, and over several breaks all but the first stay.
-/

namespace HourlyPrices.Yaml

/-- A place in a text: the rest of it, and the line and column, from 0, at which the rest starts. -/
structure Place where
  rest : List Char
  line : Nat := 0
  column : Nat := 0

namespace Place

/-- The place behind the next character. -/
def skip (p : Place) : Place :=
  match p.rest with
  | [] => p
  | c :: cs => if isBreak c then ⟨cs, p.line + 1, 0⟩ else ⟨cs, p.line, p.column + 1⟩

/-- The place behind the characters that pass a test and are no breaks. -/
def skipWhile (p : Place) (test : Char → Bool) : Place :=
  let front := p.rest.takeWhile fun c => test c && !isBreak c
  ⟨p.rest.drop front.length, p.line, p.column + front.length⟩

/-- The characters that pass a test and are no breaks, up to the first that does not. -/
def takeWhile (p : Place) (test : Char → Bool) : List Char :=
  p.rest.takeWhile fun c => test c && !isBreak c

/-- The next character. -/
def next? (p : Place) : Option Char := p.rest.head?

/-- The place behind the blanks, a comment and the break that may end a line; nothing when something
else is left in it. -/
def skipLineEnd? (p : Place) : Option Place :=
  let q := p.skipWhile isBlank
  let q := if q.next? == some '#' then q.skipWhile (fun _ => true) else q
  if atBreak q.rest then some q.skip else none

end Place

/-- What lies between two words: blanks, last first, or the first break with the breaks behind it,
last first. The first break is missing when it is escaped. -/
inductive Gap where
  | blanks (before : List Char)
  | lines (first : Option Char) (before : List Char)

namespace Gap

/-- No gap. -/
def none : Gap := .blanks []

/-- A gap followed by a blank; blanks at the start of a line do not count. -/
def addBlank (c : Char) : Gap → Gap
  | .blanks before => .blanks (c :: before)
  | .lines first before => .lines first before

/-- A gap followed by a break. -/
def addBreak (c : Char) : Gap → Gap
  | .blanks _ => .lines (some c) []
  | .lines first before => .lines first (c :: before)

/-- A gap followed by a blank or break. -/
def add (c : Char) (g : Gap) : Gap := if isBreak c then g.addBreak c else g.addBlank c

/-- Whether the gap has a break. -/
def isBroken : Gap → Bool
  | .blanks _ => false
  | .lines _ _ => true

/-- What the gap stands for. -/
def chars : Gap → List Char
  | .blanks before => before.reverse
  | .lines (some '\n') [] => [' ']
  | .lines (some '\n') before => before.reverse
  | .lines (some c) before => c :: before.reverse
  | .lines Option.none before => before.reverse

/-- Appends the gap to a text that is kept last character first. -/
def appendTo (g : Gap) (text : List Char) : List Char := g.chars.reverse ++ text

end Gap

end HourlyPrices.Yaml
