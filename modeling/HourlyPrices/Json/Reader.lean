import HourlyPrices.Json.Token

/-!
# Reading JSON

The tokens of a text are put together with a stack of the arrays and objects that are still open.
Nothing is repaired: a comma too many, a missing colon or a second value makes the text no JSON.
-/

namespace HourlyPrices.Json

/-- An array or object that is still open, with the parts before the one being read, last first. -/
inductive Frame where
  | array (before : List Json)
  | object (before : List (String × Json)) (cut : Bool) (key : String)

/-- What may come next. -/
inductive Expecting where
  /-- A value. -/
  | value (stack : List Frame)
  /-- The first item of an array, or its end. -/
  | item (stack : List Frame)
  /-- A key, or the end of the object if `first`. -/
  | key (stack : List Frame) (before : List (String × Json)) (cut : Bool) (first : Bool)
  /-- The colon behind a key. -/
  | colon (stack : List Frame) (before : List (String × Json)) (cut : Bool) (key : String)
  /-- What follows a complete value. -/
  | next (stack : List Frame) (v : Json)

/-- An object, unless one of its keys has no text. -/
def closedObject (members : List (String × Json)) (cut : Bool) : Json :=
  if cut then .halved else .object members.reverse

/-- A token where a value may come. -/
def takeValue (stack : List Frame) : Token → Option Expecting
  | .openArray => some (.item stack)
  | .openObject => some (.key stack [] false true)
  | .null => some (.next stack .null)
  | .bool b => some (.next stack (.bool b))
  | .number text => some (.next stack (.number text))
  | .string (some s) => some (.next stack (.string s))
  | .string none => some (.next stack .halved)
  | _ => none

/-- What may come after the next token. -/
def Expecting.step (t : Token) : Expecting → Option Expecting
  | .value stack => takeValue stack t
  | .item stack =>
    match t with
    | .closeArray => some (.next stack (.array []))
    | t => takeValue (.array [] :: stack) t
  | .key stack before cut first =>
    match t with
    | .closeObject => if first then some (.next stack (closedObject before cut)) else none
    | .string (some k) => some (.colon stack before cut k)
    | .string none => some (.colon stack before true "")
    | _ => none
  | .colon stack before cut k =>
    match t with
    | .colon => some (.value (.object before cut k :: stack))
    | _ => none
  | .next stack v =>
    match stack, t with
    | .array before :: rest, .comma => some (.value (.array (v :: before) :: rest))
    | .array before :: rest, .closeArray => some (.next rest (.array (v :: before).reverse))
    | .object before cut k :: rest, .comma => some (.key rest ((k, v) :: before) cut false)
    | .object before cut k :: rest, .closeObject =>
      some (.next rest (closedObject ((k, v) :: before) cut))
    | _, _ => none

/-- Takes the tokens one after the other; the one value must be complete at the end. -/
def Expecting.run : Expecting → List Token → Option Json
  | .next [] v, [] => some v
  | _, [] => none
  | e, t :: ts => do (← e.step t).run ts

/-- The value of a text. -/
def ofChars? (cs : List Char) : Option Json := do (Expecting.value []).run (← tokens cs)

/-- The value of a text. -/
def ofText? (s : String) : Option Json := ofChars? s.toList

end HourlyPrices.Json
