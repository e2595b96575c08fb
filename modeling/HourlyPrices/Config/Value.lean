import HourlyPrices.Json.Fields
import HourlyPrices.Yaml.Meaning
import HourlyPrices.Yaml.Node

/-!
# Values from which settings are read

Settings are written as JSON or YAML. Both have text, numbers, truth values, lists and records; what
counts as one of these differs. Each reading fails when the value is of another kind.
-/

namespace HourlyPrices

/-- Values from which settings are read. -/
class SettingValue (ν : Type) where
  /-- A text. -/
  text? : ν → Option String
  /-- A natural number below a bound. -/
  natural? : Nat → ν → Option Nat
  /-- A truth value. -/
  truth? : ν → Option Bool
  /-- The name of one of several choices. -/
  choice? : ν → Option String
  /-- A value that may be null. -/
  nullable? : ν → Option (Option ν)
  /-- The items of a list. -/
  items? : ν → Option (List ν)
  /-- The values of the named fields of a record, as far as they are there. -/
  fields? : List String → ν → Option (List (Option ν))

/-! ## JSON -/

namespace Json

/-- A truth value. -/
def truth? : Json → Option Bool
  | .bool b => some b
  | _ => none

/-- A choice: its name, or an object whose only key is its name, with `null` behind it. -/
def choice? : Json → Option String
  | .string s => some s
  | .object [(s, .null)] => some s
  | _ => none

end Json

instance : SettingValue Json where
  text? := Json.text?
  natural? := Json.natural?
  truth? := Json.truth?
  choice? := Json.choice?
  nullable? := Json.nullable? some
  items? := Json.items? some
  fields? := Json.fields?

/-! ## YAML -/

namespace Yaml

/-- A node of a document, with the nodes that aliases refer to. -/
structure Value where
  node : Node
  targets : List (Nat × Node)

namespace Value

/-- The node itself, or the one that it refers to. An anchor never names an alias. -/
def target (v : Value) : Node :=
  match v.node with
  | .alias n => (v.targets.lookup n).getD v.node
  | node => node

/-- A node of the same document. -/
def sibling (v : Value) (n : Node) : Value := ⟨n, v.targets⟩

/-- The text of any scalar. -/
def text? (v : Value) : Option String :=
  match v.target with
  | .scalar _ text _ => some text
  | _ => none

/-- The text of a scalar that may stand for something else than text: a plain one, or a literal one
with the tag of what it stands for. -/
def plainText? (kind : String) (v : Value) : Option String :=
  match v.target with
  | .scalar _ text .plain => some text
  | .scalar (some tag) text .literal =>
    if tag == "tag:yaml.org,2002:" ++ kind then some text else none
  | _ => none

/-- A natural number below a bound. -/
def natural? (bound : Nat) (v : Value) : Option Nat := do
  let n ← naturalOf? (← v.plainText? "int").toList
  if n < bound then some n else none

/-- A truth value. -/
def truth? (v : Value) : Option Bool := do Yaml.truth? (← v.plainText? "bool")

/-- Whether nothing is written where the node stands. -/
def isBlank (v : Value) : Bool :=
  match v.target with
  | .scalar _ "" .plain => true
  | _ => false

/-- Whether a scalar is written plain and says nothing or null. -/
def isNull (v : Value) : Bool :=
  match v.target with
  | .scalar _ text .plain => text.isEmpty || isNullWord text
  | _ => false

/-- The tag of null. -/
def nullTag : String := "tag:yaml.org,2002:null"

/-- A value that may be null. A plain scalar with a tag is null only if the tag says so, and then it
must be a word for null. -/
def nullable? (v : Value) : Option (Option Value) :=
  match v.target with
  | .scalar (some tag) text .plain =>
    if tag == nullTag then (if isNullWord text then some none else none) else some (some v)
  | _ => some (if v.isNull then none else some v)

/-- The choice that a tag names: one with a single exclamation mark before the name. -/
def tagChoice? (tag : Option String) : Option String :=
  match tag.map String.toList with
  | some ['!'] => some "!"
  | some ('!' :: name) => some (String.ofList name)
  | _ => none

/-- A choice: a scalar with its name, or a tag that names it, with null behind it. -/
def choice? (v : Value) : Option String :=
  match v.target with
  | .scalar tag text _ =>
    match tagChoice? tag with
    | some name => if v.isNull then some name else none
    | none => some text
  | _ => none

/-- The items of a sequence; none where nothing is written. -/
def items? (v : Value) : Option (List Value) :=
  match v.target with
  | .sequence _ items => some (items.map v.sibling)
  | _ => if v.isBlank then some [] else none

/-- The fields of a mapping whose keys are all scalars; none where nothing is written. -/
def fields? (names : List String) (v : Value) : Option (List (Option Value)) :=
  match v.target with
  | .mapping _ entries => do
    let members ← entries.mapM fun (k, w) => do return (← (v.sibling k).text?, v.sibling w)
    fieldValues names members
  | _ => if v.isBlank then some (names.map fun _ => none) else none

end Value

instance : SettingValue Value where
  text? := Value.text?
  natural? := Value.natural?
  truth? := Value.truth?
  choice? := Value.choice?
  nullable? := Value.nullable?
  items? := Value.items?
  fields? := Value.fields?

/-- The root of a document. -/
def Document.value (d : Document) : Value := ⟨d.root, d.targets⟩

end Yaml

end HourlyPrices
