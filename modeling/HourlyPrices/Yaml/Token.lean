import HourlyPrices.Yaml.Scalar

/-!
# The tokens of a YAML text

A text is cut into tokens. Indentation becomes tokens of its own, which open and close blocks.
Whether a node is a key is only known at the colon behind it: the tokens that make it one are then
put in front of it. Such a key lies on one line and is not longer than `keyReach`.
-/

namespace HourlyPrices.Yaml

/-- A token. The end of the text is no token. -/
inductive Token where
  | version (major minor : Nat)
  | handle (name lead : String)
  | documentStart
  | documentEnd
  | sequenceStart
  | mappingStart
  | blockEnd
  | openSequence
  | closeSequence
  | openMapping
  | closeMapping
  | item
  | comma
  | key
  | value
  | alias (name : String)
  | anchor (name : String)
  | tag (handle suffix : String)
  | scalar (text : String) (style : ScalarStyle)
  deriving DecidableEq

/-- A node that may turn out to be a key. -/
structure KeyCandidate where
  /-- The number of tokens before the node. -/
  before : Nat
  /-- Whether nothing but a key may stand there. -/
  required : Bool
  line : Nat
  column : Nat

/-- The greatest distance between the start of a key and the colon behind it. -/
def keyReach : Nat := 1024

/-- A reader of tokens between two of them. -/
structure Lexer where
  place : Place
  /-- The tokens read, last first. -/
  tokens : List Token := []
  /-- The indentation of the innermost block, and of those around it. -/
  indent : Option Nat := none
  outerIndents : List (Option Nat) := []
  /-- The node that may be a key, here and outside of each open bracket. -/
  candidate : Option KeyCandidate := none
  outerCandidates : List (Option KeyCandidate) := []
  /-- Whether a key may start here. -/
  keyAllowed : Bool := true

namespace Lexer

/-- Whether the reader is inside of brackets. -/
def inFlow (l : Lexer) : Bool := !l.outerCandidates.isEmpty

/-- The least column of content of the innermost block. -/
def least (l : Lexer) : Nat :=
  match l.indent with
  | some n => n + 1
  | none => 0

/-- Adds a token. -/
def push (l : Lexer) (t : Token) : Lexer := { l with tokens := t :: l.tokens }

/-- Moves to a place. -/
def goto (l : Lexer) (p : Place) : Lexer := { l with place := p }

/-- Sets whether a key may start here. -/
def allowKey (l : Lexer) (allowed : Bool) : Lexer := { l with keyAllowed := allowed }

/-- Adds a token of one character. -/
def mark (l : Lexer) (t : Token) : Lexer := (l.push t).goto l.place.skip

/-! ## Indentation -/

/-- Opens a block at a column that lies behind the innermost one; its token is put behind the first
`before` tokens. -/
def openBlock (l : Lexer) (column before : Nat) (t : Token) : Lexer :=
  if l.inFlow || column < l.least then l
  else
    let behind := l.tokens.length - before
    { l with
      tokens := l.tokens.take behind ++ t :: l.tokens.drop behind
      indent := some column
      outerIndents := l.indent :: l.outerIndents }

/-- Closes the blocks that lie behind a column, of the given ones, innermost first. -/
def closeIndents (column : Option Nat) (tokens : List Token) (indent : Option Nat) :
    List (Option Nat) → List Token × Option Nat × List (Option Nat)
  | [] => (tokens, indent, [])
  | outer :: more =>
    let behind := match indent, column with
      | none, _ => false
      | some _, none => true
      | some n, some c => c < n
    if behind then closeIndents column (.blockEnd :: tokens) outer more
    else (tokens, indent, outer :: more)

/-- Closes the blocks that lie behind a column, or all blocks. -/
def closeBlocks (l : Lexer) (column : Option Nat) : Lexer :=
  if l.inFlow then l
  else
    let (tokens, indent, outerIndents) := closeIndents column l.tokens l.indent l.outerIndents
    { l with tokens, indent, outerIndents }

/-! ## Keys -/

/-- Gives up the candidate, unless a key is required there. -/
def dropCandidate (l : Lexer) : Option Lexer :=
  if l.candidate.any (·.required) then none else some { l with candidate := none }

/-- A candidate that is still in reach of a place; nothing when a key is required that is not. -/
def refreshed (p : Place) : Option KeyCandidate → Option (Option KeyCandidate)
  | none => some none
  | some k =>
    if k.line < p.line || k.column + keyReach < p.column then
      if k.required then none else some none
    else some (some k)

/-- Gives up the candidates that are out of reach. -/
def refresh (l : Lexer) : Option Lexer := do
  return { l with
    candidate := ← refreshed l.place l.candidate
    outerCandidates := ← l.outerCandidates.mapM (refreshed l.place) }

/-- Notes that a node starts here, which may be a key. -/
def noteCandidate (l : Lexer) : Option Lexer :=
  if l.keyAllowed then do
    let required := !l.inFlow && l.indent == some l.place.column
    let l ← l.dropCandidate
    return { l with
      candidate := some ⟨l.tokens.length, required, l.place.line, l.place.column⟩ }
  else some l

/-! ## Blanks -/

/-- Skips blanks, comments and breaks. In a block, a key may start on a new line, and tabs may not
stand where a key may start. -/
def skipFrom (inFlow : Bool) (keyAllowed comment : Bool) (line column : Nat) :
    List Char → Place × Bool
  | [] => (⟨[], line, column⟩, keyAllowed)
  | c :: cs =>
    if isBreak c then skipFrom inFlow (keyAllowed || !inFlow) false (line + 1) 0 cs
    else if comment || c == ' ' || (c == '\t' && (inFlow || !keyAllowed)) then
      skipFrom inFlow keyAllowed comment line (column + 1) cs
    else if c == '#' then skipFrom inFlow keyAllowed true line (column + 1) cs
    else (⟨c :: cs, line, column⟩, keyAllowed)

/-- Skips to the start of the next token. -/
def skipGap (l : Lexer) : Lexer :=
  let (p, allowed) := skipFrom l.inFlow l.keyAllowed false l.place.line l.place.column l.place.rest
  (l.goto p).allowKey allowed

/-! ## Tags and names -/

/-- Characters of a tag besides those of names. -/
def isTagMark (c : Char) : Bool :=
  c == ';' || c == '/' || c == '?' || c == ':' || c == '@' || c == '&' || c == '=' || c == '+' ||
    c == '$' || c == '.' || c == '!' || c == '~' || c == '*' || c == '\'' || c == '(' || c == ')'

/-- The bytes of percent escapes at the start of a text, and the rest behind them. -/
def escapedBytes : List Char → List UInt8 × List Char
  | '%' :: a :: b :: cs =>
    match hexValue? a, hexValue? b with
    | some x, some y =>
      let (bytes, rest) := escapedBytes cs
      (UInt8.ofNat (x * 16 + y) :: bytes, rest)
    | _, _ => ([], '%' :: a :: b :: cs)
  | cs => ([], cs)

/-- The characters of a tag, with `,`, `[` and `]` if it stands between angles. Escaped characters
are written by their bytes. -/
def tagChars (angled : Bool) (line column : Nat) : Nat → List Char → Option (List Char × Place)
  | 0, cs => some ([], ⟨cs, line, column⟩)
  | _, [] => some ([], ⟨[], line, column⟩)
  | fuel + 1, c :: cs =>
    if c == '%' then do
      let (bytes, rest) := escapedBytes (c :: cs)
      let text ← String.fromUTF8? ⟨bytes.toArray⟩
      if bytes.isEmpty then none
      let (more, p) ← tagChars angled line (column + 3 * bytes.length) fuel rest
      return (text.toList ++ more, p)
    else if isWordChar c || isTagMark c || (angled && (c == ',' || c == '[' || c == ']')) then do
      let (more, p) ← tagChars angled line (column + 1) fuel cs
      return (c :: more, p)
    else some ([], ⟨c :: cs, line, column⟩)

/-- The characters of a tag at a place. -/
def tagText (angled : Bool) (p : Place) : Option (List Char × Place) :=
  tagChars angled p.line p.column p.rest.length p.rest

/-- A handle, from its exclamation mark on: a name and, if there is one behind it, a second mark. -/
def handleText (p : Place) : List Char × Place :=
  let name := p.skip.takeWhile isWordChar
  let q := p.skip.skipWhile isWordChar
  if q.next? == some '!' then ('!' :: name ++ ['!'], q.skip) else ('!' :: name, q)

/-- Whether the characters of a handle end in a second mark. -/
def isHandle (cs : List Char) : Bool := 1 < cs.length && cs.getLast? == some '!'

/-- A tag, from its exclamation mark on: its handle and suffix. -/
def tag? (l : Lexer) : Option (String × String × Place) := do
  let p := l.place
  let (handle, suffix, q) ← match p.skip.next? with
    | some '<' => do
      let (suffix, q) ← tagText true p.skip.skip
      if suffix.isEmpty || q.next? != some '>' then none else some ([], suffix, q.skip)
    | _ => do
      let (handle, q) := handleText p
      let (suffix, q) ← tagText false q
      if isHandle handle then
        if suffix.isEmpty then none else some (handle, suffix, q)
      else
        let suffix := handle.drop 1 ++ suffix
        if suffix.isEmpty then some ([], ['!'], q) else some (['!'], suffix, q)
  if atGap q.rest || (l.inFlow && q.next? == some ',') then
    return (String.ofList handle, String.ofList suffix, q)
  else none

/-- Characters that may follow the name of an anchor or alias. -/
def endsName (cs : List Char) : Bool :=
  atGap cs || cs.head?.any fun c => ['?', ':', ',', ']', '\x7d', '%', '@', '\x60'].contains c

/-- The name of an anchor or alias, from the mark before it on. -/
def name? (p : Place) : Option (String × Place) :=
  let name := p.skip.takeWhile isWordChar
  let q := p.skip.skipWhile isWordChar
  if name.isEmpty || !endsName q.rest then none else some (String.ofList name, q)

/-! ## Directives -/

/-- Digits of a version, at most nine of them. -/
def versionNumber? (p : Place) : Option (Nat × Place) :=
  let digits := p.takeWhile isDigit
  if digits.isEmpty || 9 < digits.length then none
  else some (digits.foldl (fun n c => n * 10 + (c.toNat - 48)) 0, p.skipWhile isDigit)

/-- A version, `major.minor`. -/
def version? (p : Place) : Option (Token × Place) := do
  let (major, p) ← versionNumber? (p.skipWhile isBlank)
  if p.next? != some '.' then none
  let (minor, p) ← versionNumber? p.skip
  return (.version major minor, p)

/-- The meaning of a handle. -/
def handleMeaning? (p : Place) : Option (Token × Place) := do
  let p := p.skipWhile isBlank
  if p.next? != some '!' then none
  let (handle, p) := handleText p
  if handle != ['!'] && !isHandle handle then none
  if !p.next?.any isBlank then none
  let (lead, p) ← tagText true (p.skipWhile isBlank)
  if lead.isEmpty || !atGap p.rest then none
  return (.handle (String.ofList handle) (String.ofList lead), p)

/-- A directive, from its percent sign to the end of the line. -/
def directive? (p : Place) : Option (Token × Place) := do
  let name := String.ofList (p.skip.takeWhile isWordChar)
  let p := p.skip.skipWhile isWordChar
  if !atGap p.rest then none
  let (t, p) ← if name == "YAML" then version? p
    else if name == "TAG" then handleMeaning? p
    else none
  return (t, ← p.skipLineEnd?)

/-! ## Tokens -/

/-- A token that starts at column 0 and ends all blocks. -/
def topLevel (l : Lexer) (t : Token) (p : Place) : Option Lexer := do
  let l ← (l.closeBlocks none).dropCandidate
  return ((l.allowKey false).push t).goto p

/-- An opening bracket. -/
def openFlow (l : Lexer) (t : Token) : Option Lexer := do
  let l ← l.noteCandidate
  return ({ l with
    candidate := none
    outerCandidates := l.candidate :: l.outerCandidates }.allowKey true).mark t

/-- A closing bracket. -/
def closeFlow (l : Lexer) (t : Token) : Option Lexer := do
  let l ← l.dropCandidate
  let l := match l.outerCandidates with
    | [] => l
    | k :: ks => { l with candidate := k, outerCandidates := ks }
  return (l.allowKey false).mark t

/-- The dash before an item. -/
def itemMark (l : Lexer) : Option Lexer := do
  if !l.inFlow && !l.keyAllowed then none
  let l ← (l.openBlock l.place.column l.tokens.length .sequenceStart).dropCandidate
  return (l.allowKey true).mark .item

/-- The question mark before a key. -/
def keyMark (l : Lexer) : Option Lexer := do
  if !l.inFlow && !l.keyAllowed then none
  let l ← (l.openBlock l.place.column l.tokens.length .mappingStart).dropCandidate
  return (l.allowKey !l.inFlow).mark .key

/-- The colon before a value; it makes a key of the candidate, if there is one. -/
def valueMark (l : Lexer) : Option Lexer :=
  match l.candidate with
  | some k =>
    let behind := l.tokens.length - k.before
    let l := { l with
      candidate := none
      tokens := l.tokens.take behind ++ Token.key :: l.tokens.drop behind }
    some ((l.openBlock k.column k.before .mappingStart).allowKey false |>.mark .value)
  | none => do
    if !l.inFlow && !l.keyAllowed then none
    let l := l.openBlock l.place.column l.tokens.length .mappingStart
    return (l.allowKey !l.inFlow).mark .value

/-- An anchor or alias. -/
def nameToken (l : Lexer) (t : String → Token) : Option Lexer := do
  let l ← l.noteCandidate
  let (name, p) ← name? l.place
  return ((l.allowKey false).push (t name)).goto p

/-- A tag. -/
def tagToken (l : Lexer) : Option Lexer := do
  let l ← l.noteCandidate
  let (handle, suffix, p) ← l.tag?
  return ((l.allowKey false).push (.tag handle suffix)).goto p

/-- A block scalar. -/
def blockToken (l : Lexer) (literal : Bool) : Option Lexer := do
  let l ← l.dropCandidate
  let (text, p) ← blockScalar? literal l.least l.place
  return ((l.allowKey true).push (.scalar text (if literal then .literal else .folded))).goto p

/-- A quoted scalar. -/
def quotedToken (l : Lexer) (double : Bool) : Option Lexer := do
  let l ← l.noteCandidate
  let (text, p) ← quotedScalar? double l.place
  return ((l.allowKey false).push (.scalar text .quoted)).goto p

/-- A plain scalar; when it is followed by a break, a key may start behind it. -/
def plainToken (l : Lexer) : Option Lexer := do
  let l ← l.noteCandidate
  let (text, broken, p) ← plainScalar? l.inFlow l.least l.place
  return ((l.allowKey broken).push (.scalar text .plain)).goto p

/-- Characters at which no plain scalar starts, unless what follows says so. -/
def isIndicator (c : Char) : Bool :=
  c == '-' || c == '?' || c == ':' || c == ',' || c == '[' || c == ']' || c == '\x7b' ||
    c == '\x7d' || c == '#' || c == '&' || c == '*' || c == '!' || c == '|' || c == '>' ||
    c == '\'' || c == '"' || c == '%' || c == '@' || c == '\x60'

/-- Whether a plain scalar starts with `c` before the rest `cs`. -/
def startsPlain (inFlow : Bool) (c : Char) (cs : List Char) : Bool :=
  if c == '-' then !cs.head?.any isBlank
  else if c == '?' || c == ':' then !inFlow && !atGap cs
  else !isIndicator c && !isBlank c

/-- The next token, which starts with `c` before the rest `cs`. -/
def token (l : Lexer) (c : Char) (cs : List Char) : Option Lexer :=
  let p := l.place
  if p.column == 0 && c == '%' then do
    let l ← (l.closeBlocks none).dropCandidate
    let (t, p) ← directive? p
    return ((l.allowKey false).push t).goto p
  else if p.column == 0 && isDivider '-' (c :: cs) then l.topLevel .documentStart p.skip.skip.skip
  else if p.column == 0 && isDivider '.' (c :: cs) then l.topLevel .documentEnd p.skip.skip.skip
  else if c == '[' then l.openFlow .openSequence
  else if c == '\x7b' then l.openFlow .openMapping
  else if c == ']' then l.closeFlow .closeSequence
  else if c == '\x7d' then l.closeFlow .closeMapping
  else if c == ',' then do return ((← l.dropCandidate).allowKey true).mark .comma
  else if c == '-' && atGap cs then l.itemMark
  else if c == '?' && (l.inFlow || atGap cs) then l.keyMark
  else if c == ':' && (l.inFlow || atGap cs) then l.valueMark
  else if c == '*' then l.nameToken .alias
  else if c == '&' then l.nameToken .anchor
  else if c == '!' then l.tagToken
  else if c == '|' && !l.inFlow then l.blockToken true
  else if c == '>' && !l.inFlow then l.blockToken false
  else if c == '\'' then l.quotedToken false
  else if c == '"' then l.quotedToken true
  else if startsPlain l.inFlow c cs then l.plainToken
  else none

/-- The tokens of the rest of a text. Each step reads a character at least, so the length of the
text bounds the number of steps. -/
def run : Nat → Lexer → Option (List Token)
  | 0, _ => none
  | fuel + 1, l => do
    let l ← l.skipGap.refresh
    let l := l.closeBlocks (some l.place.column)
    match l.place.rest with
    | [] => do
      let l ← (l.closeBlocks none).dropCandidate
      return l.tokens.reverse
    | c :: cs => (← l.token c cs).run fuel

end Lexer

/-- The tokens of a text. -/
def tokens? (cs : List Char) : Option (List Token) := do
  let cs ← readable? cs
  (⟨⟨cs, 0, 0⟩, [], none, [], none, [], true⟩ : Lexer).run (cs.length + 1)

end HourlyPrices.Yaml
