import HourlyPrices.Yaml.Gap

/-!
# Scalars in a YAML text

A scalar is written plain, between quotes, or as an indented block. Each reader takes the place at
which the scalar starts and answers its text with the place behind it, or nothing when the scalar is
not well formed.
-/

namespace HourlyPrices.Yaml

/-- How a scalar is written, as far as its meaning depends on it. -/
inductive ScalarStyle where
  | plain | quoted | literal | folded
  deriving DecidableEq

/-! ## Plain scalars -/

/-- Brackets and commas, which end a plain scalar inside of brackets. -/
def isFlowMark (c : Char) : Bool :=
  c == ',' || c == '[' || c == ']' || c == '\x7b' || c == '\x7d'

/-- A plain scalar whose lines start at or behind `least`, inside of brackets if `flow`. What has
been read is kept last character first. The answer also says whether a break lies behind the
scalar. -/
def plainFrom (flow : Bool) (least : Nat) (text : List Char) (gap : Gap) (line column : Nat) :
    List Char → Option (List Char × Bool × Place)
  | [] => some (text, gap.isBroken, ⟨[], line, column⟩)
  | c :: cs =>
    let stop := some (text, gap.isBroken, ⟨c :: cs, line, column⟩)
    let behindGap := match gap with
      | .blanks [] => false
      | _ => true
    if isBreak c then plainFrom flow least text (gap.addBreak c) (line + 1) 0 cs
    else if isBlank c then
      if gap.isBroken && column < least && c == '\t' then none
      else plainFrom flow least text (gap.addBlank c) line (column + 1) cs
    else if behindGap && ((!flow && column < least) || c == '#') then stop
    else if column == 0 && atDivider (c :: cs) then stop
    else if flow && c == ':' && cs.head?.any (fun d => isFlowMark d || d == '?') then none
    else if c == ':' && atGap cs || flow && isFlowMark c then stop
    else plainFrom flow least (c :: gap.appendTo text) .none line (column + 1) cs

/-- A plain scalar. -/
def plainScalar? (flow : Bool) (least : Nat) (p : Place) : Option (String × Bool × Place) :=
  (plainFrom flow least [] .none p.line p.column p.rest).map fun (text, broken, q) =>
    (String.ofList text.reverse, broken, q)

/-! ## Quoted scalars -/

/-- Where a reader of a quoted scalar stands. -/
inductive QuotedMode where
  /-- Among the characters of the scalar. -/
  | text
  /-- Behind a backslash. -/
  | escape
  /-- Before some hexadecimal digits, behind digits of the given value. -/
  | code (left value : Nat)

/-- The character of an escape of one letter. -/
def escapedChar? (c : Char) : Option Char :=
  match c with
  | '0' => some '\x00'
  | 'a' => some '\x07'
  | 'b' => some '\x08'
  | 't' | '\t' => some '\t'
  | 'n' => some '\n'
  | 'v' => some '\x0b'
  | 'f' => some '\x0c'
  | 'r' => some '\r'
  | 'e' => some '\x1b'
  | ' ' | '"' | '/' | '\\' => some c
  | 'N' => some '\u0085'
  | '_' => some '\u00a0'
  | 'L' => some '\u2028'
  | 'P' => some '\u2029'
  | _ => none

/-- The number of digits behind a letter that starts an escape by number. -/
def codeLength? (c : Char) : Option Nat :=
  match c with
  | 'x' => some 2
  | 'u' => some 4
  | 'U' => some 8
  | _ => none

/-- The character of a number, if there is one. -/
def charOfCode? (n : Nat) : Option Char :=
  if (0xd800 ≤ n ∧ n ≤ 0xdfff) ∨ 0x10ffff < n then none else some (Char.ofNat n)

/-- A quoted scalar, with escapes if the quotes are double. -/
def quotedFrom (double : Bool) (mode : QuotedMode) (text : List Char) (gap : Gap)
    (line column : Nat) : List Char → Option (List Char × Place)
  | [] => none
  | c :: cs =>
    match mode with
    | .text =>
      if isBreak c then quotedFrom double .text text (gap.addBreak c) (line + 1) 0 cs
      else if isBlank c then quotedFrom double .text text (gap.addBlank c) line (column + 1) cs
      else if column == 0 && atDivider (c :: cs) then none
      else
        let text := gap.appendTo text
        if double then
          if c == '"' then some (text, ⟨cs, line, column + 1⟩)
          else if c == '\\' then quotedFrom double .escape text .none line (column + 1) cs
          else quotedFrom double .text (c :: text) .none line (column + 1) cs
        else if c == '\'' then
          match cs with
          | '\'' :: ds => quotedFrom double .text ('\'' :: text) .none line (column + 2) ds
          | _ => some (text, ⟨cs, line, column + 1⟩)
        else quotedFrom double .text (c :: text) .none line (column + 1) cs
    | .escape =>
      if isBreak c then quotedFrom double .text text (.lines none []) (line + 1) 0 cs
      else match codeLength? c with
        | some n => quotedFrom double (.code n 0) text .none line (column + 1) cs
        | none =>
          match escapedChar? c with
          | some d => quotedFrom double .text (d :: text) .none line (column + 1) cs
          | none => none
    | .code left value =>
      match hexValue? c with
      | none => none
      | some d =>
        let n := value * 16 + d
        if 1 < left then quotedFrom double (.code (left - 1) n) text .none line (column + 1) cs
        else match charOfCode? n with
          | some d => quotedFrom double .text (d :: text) .none line (column + 1) cs
          | none => none

/-- A quoted scalar, from its opening quote on. -/
def quotedScalar? (double : Bool) (p : Place) : Option (String × Place) :=
  let q := p.skip
  (quotedFrom double .text [] .none q.line q.column q.rest).map fun (text, q) =>
    (String.ofList text.reverse, q)

/-! ## Block scalars -/

/-- Which breaks at the end of a block are part of its text. -/
inductive Chomping where
  | strip | clip | keep
  deriving DecidableEq

/-- The head of a block: its chomping and the indentation that it states, if any. -/
structure BlockHead where
  chomping : Chomping := .clip
  increment : Option Nat := none

/-- The chomping of a mark. -/
def chomping? (c : Char) : Option Chomping :=
  if c == '+' then some .keep else if c == '-' then some .strip else none

/-- The indentation of a digit, which must not be zero. -/
def increment? (c : Char) : Option Nat :=
  if isDigit c ∧ c ≠ '0' then some (c.toNat - 48) else none

/-- Reads the head of a block behind its first mark, up to the end of the line. -/
def blockHead? (p : Place) : Option (BlockHead × Place) := do
  let (head, q) ← match p.rest with
    | [] => some ({}, p)
    | c :: cs =>
      match chomping? c with
      | some chomping =>
        match cs with
        | d :: _ =>
          if isDigit d then (increment? d).map fun n => (⟨chomping, some n⟩, p.skip.skip)
          else some (⟨chomping, none⟩, p.skip)
        | [] => some (⟨chomping, none⟩, p.skip)
      | none =>
        if isDigit c then do
          let n ← increment? c
          match cs.head?.bind chomping? with
          | some chomping => some (⟨chomping, some n⟩, p.skip.skip)
          | none => some (⟨.clip, some n⟩, p.skip)
        else some ({}, p)
  return (head, ← q.skipLineEnd?)

/-- What has been read of a block. All lists are kept last character first. -/
structure Block where
  text : List Char := []
  /-- The break behind the last line. -/
  lastBreak : List Char := []
  /-- The breaks behind that one. -/
  laterBreaks : List Char := []
  /-- Whether the last line starts with a blank. -/
  blankStart : Bool := false

/-- The block before a line that starts with `c`: the breaks since the last line are folded unless
the block is literal or one of the two lines starts with a blank. -/
def Block.join (b : Block) (literal : Bool) (c : Char) : Block :=
  let folds := !literal && b.lastBreak == ['\n'] && !b.blankStart && !isBlank c
  let text :=
    if folds then (if b.laterBreaks.isEmpty then ' ' :: b.text else b.text)
    else b.lastBreak ++ b.text
  { text := b.laterBreaks ++ text, blankStart := isBlank c }

/-- The whole text of a block, last character first. -/
def Block.finish (b : Block) (chomping : Chomping) : List Char :=
  match chomping with
  | .strip => b.text
  | .clip => b.lastBreak ++ b.text
  | .keep => b.laterBreaks ++ (b.lastBreak ++ b.text)

/-- Where a reader of a block stands. -/
inductive BlockMode where
  /-- In the blanks before a line; the indentation may not be known yet, and `widest` is the widest
  seen so far. -/
  | margin (indent : Option Nat) (widest : Nat)
  /-- In a line. -/
  | line (indent : Nat)

/-- The indentation of a block, which is that of its widest leading line but at least `least`. -/
def settleIndent (least widest : Nat) : Option Nat → Nat
  | some n => n
  | none => max widest (max least 1)

/-- The lines of a block. -/
def blockFrom (literal : Bool) (least : Nat) (mode : BlockMode) (b : Block) (line column : Nat) :
    List Char → Option (Block × Place)
  | [] => some (b, ⟨[], line, column⟩)
  | c :: cs =>
    match mode with
    | .margin indent widest =>
      let inMargin := match indent with
        | some n => column < n
        | none => true
      let widest := max widest column
      if inMargin && c == ' ' then
        blockFrom literal least (.margin indent widest) b line (column + 1) cs
      else if inMargin && c == '\t' then none
      else if isBreak c then
        blockFrom literal least (.margin indent widest)
          { b with laterBreaks := c :: b.laterBreaks } (line + 1) 0 cs
      else
        let n := settleIndent least widest indent
        if column == n then
          let b := b.join literal c
          blockFrom literal least (.line n) { b with text := c :: b.text } line (column + 1) cs
        else some (b, ⟨c :: cs, line, column⟩)
    | .line n =>
      if isBreak c then
        blockFrom literal least (.margin (some n) 0) { b with lastBreak := [c] } (line + 1) 0 cs
      else blockFrom literal least (.line n) { b with text := c :: b.text } line (column + 1) cs

/-- A block scalar, from its first mark on, inside of a block whose content is indented by at least
`least`. -/
def blockScalar? (literal : Bool) (least : Nat) (p : Place) : Option (String × Place) := do
  let (head, q) ← blockHead? p.skip
  let indent := head.increment.map fun n => (least - 1) + n
  let (b, r) ← blockFrom literal least (.margin indent 0) {} q.line q.column q.rest
  return (String.ofList (b.finish head.chomping).reverse, r)

end HourlyPrices.Yaml
