import HourlyPrices.Log.Level
import HourlyPrices.Text.Blank

/-!
# Log filters

A filter is written as directives between commas. A directive is a level for all events, a target
for which all levels pass, or a target with a level, as in `off,elspot=info`; a target stands for
all targets that begin with it. The longest target decides, and of two directives for the same
target the later one. A directive may name a span in brackets instead; it concerns only events
inside of spans, and there are no spans.
-/

namespace HourlyPrices

/-- A directive: the events of some targets pass from a level on, or not at all. -/
structure LogDirective where
  /-- The beginning of the targets, and of all of them when there is none. -/
  target : Option String
  /-- The least severe level that passes. -/
  threshold : Option LogLevel
  deriving DecidableEq

/-- The directives of a filter, in the order in which they are written. -/
structure LogFilter where
  directives : List LogDirective
  deriving DecidableEq

namespace LogDirective

/-- A threshold: the name of a level in any case, its number from 1 (only errors) to 5, or `off`
or 0 for no events at all. -/
def threshold? (s : String) : Option (Option LogLevel) :=
  let digits := if s.startsWith "+" then (s.drop 1).toString else s
  if !digits.isEmpty && digits.toList.all Char.isDigit then
    match digits.toNat? with
    | some 0 => some none
    | some n => (LogLevel.all.find? fun l => 5 - l.rank == n).map some
    | none => none
  else
    let name := String.ofList (s.toList.map Text.upperAscii)
    if name == "OFF" then some none else (LogLevel.all.find? (·.name == name)).map some

/-- Whether a directive can begin with a character; letters beyond ASCII are not told from other
characters. -/
def startsTarget (c : Char) : Bool :=
  c.isAlphanum || c == '-' || c == ':' || c == '_' || 0x80 ≤ c.toNat

/-- A threshold after an equals sign, with every level when it is left out. Blanks around the
directive make it invalid. -/
def afterEquals? (cs : List Char) (padded : Bool) : Option (Option LogLevel) :=
  if padded then none
  else if cs.isEmpty then some (some .trace)
  else threshold? (String.ofList cs)

/-- What may follow the part in brackets: nothing, or a threshold. -/
def closesSpan (cs : List Char) (padded : Bool) : Bool :=
  match cs with
  | [] => true
  | '=' :: level => (afterEquals? level padded).isSome
  | _ => false

/-- A part in brackets: the name of a span, and its fields in braces. One that breaks off before it
names anything restricts nothing. `none` means that it is not valid, and `some none` that it
concerns spans. -/
def inBrackets? (target : Option String) (cs : List Char) (padded : Bool) :
    Option (Option LogDirective) :=
  let isName := fun c : Char => c != ']' && c != '\x7b'
  let name := cs.takeWhile isName
  match cs.dropWhile isName with
  | [] => some (some ⟨target, some .trace⟩)
  | ']' :: rest => if closesSpan rest padded then some none else none
  | _ :: rest =>
    match rest.dropWhile (· != '\x7d') with
    | [] => some (if name.isEmpty then some ⟨target, some .trace⟩ else none)
    | _ :: rest' =>
      let rest' := match rest' with
        | ']' :: r => r
        | r => r
      if rest.head? != some '\x7d' && closesSpan rest' padded then some none else none

/-- Reads a directive. `none` means that it is not valid, and `some none` that it concerns spans. -/
def ofText? (s : String) : Option (Option LogDirective) :=
  let cs := Text.trimChars s.toList
  let padded := s.toList != cs
  let isTarget := fun c : Char => c != '=' && c != '['
  match cs with
  | [] => some (some ⟨none, some .trace⟩)
  | '[' :: rest => inBrackets? none rest padded
  | c :: _ =>
    if !startsTarget c then none
    else
      let target := String.ofList (cs.takeWhile isTarget)
      match cs.dropWhile isTarget with
      | '=' :: level => (afterEquals? level padded).map fun t => some ⟨some target, t⟩
      | '[' :: rest => inBrackets? (some (if padded then s else target)) rest padded
      | _ =>
        match threshold? s with
        | some t => some (some ⟨none, t⟩)
        | none => some (some ⟨some s, some .trace⟩)

/-- Whether a directive is about a target. -/
def concerns (d : LogDirective) (target : String) : Bool :=
  match d.target with
  | none => true
  | some t => t.toList.isPrefixOf target.toList

/-- How much of a target a directive names, and more than nothing if it names any. -/
def weight (d : LogDirective) : Nat :=
  match d.target with
  | none => 0
  | some t => t.utf8ByteSize + 1

end LogDirective

namespace LogFilter

/-- Reads the directives of a filter. -/
def ofText? (s : String) : Option LogFilter := do
  let parts := (s.splitOn ",").filter fun p => !p.isEmpty
  return ⟨(← parts.mapM LogDirective.ofText?).filterMap id⟩

/-- The filter that lets pass the events of one target from a level on. -/
def ofThreshold (target : String) (l : LogLevel) : LogFilter := ⟨[⟨some target, some l⟩]⟩

/-- The directive that decides about a target. -/
def deciding? (f : LogFilter) (target : String) : Option LogDirective :=
  f.directives.foldl (fun best d =>
    if !d.concerns target then best
    else match best with
      | some b => if b.weight ≤ d.weight then some d else some b
      | none => some d) none

/-- Whether events of a target and a level pass. -/
def admits (f : LogFilter) (target : String) (l : LogLevel) : Bool :=
  match (f.deciding? target).bind (·.threshold) with
  | some t => t.admits l
  | none => false

end LogFilter

end HourlyPrices
