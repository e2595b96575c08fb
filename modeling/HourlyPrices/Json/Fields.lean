import HourlyPrices.Json.Reader

/-!
# Records in JSON

A record is written as an object with a member for each field, in any order, or as an array of its
fields in their order, which may be cut short. Members that are no fields are skipped; a field that
comes twice, or an item too many, is refused.
-/

namespace HourlyPrices

/-- The values of the named fields in a list of members, if no field comes twice. -/
def fieldValues {α : Type} (names : List String) (members : List (String × α)) :
    Option (List (Option α)) :=
  names.mapM fun name =>
    match members.filter (·.1 == name) with
    | [] => some none
    | [m] => some (some m.2)
    | _ :: _ :: _ => none

/-- The values of some fields in their order, if there are no more than that. -/
def positionalValues {α : Type} : List String → List α → Option (List (Option α))
  | [], [] => some []
  | [], _ :: _ => none
  | _ :: names, [] => some (none :: names.map fun _ => none)
  | _ :: names, v :: vs => (positionalValues names vs).map (some v :: ·)

namespace Json

/-- The values of the fields of a record, in the order of the names. -/
def fields? (names : List String) : Json → Option (List (Option Json))
  | .object members => fieldValues names members
  | .array items => positionalValues names items
  | _ => none

/-- The text of a string. -/
def text? : Json → Option String
  | .string s => some s
  | _ => none

/-- A number that is written with digits alone and stays below a bound. -/
def natural? (bound : Nat) : Json → Option Nat
  | .number text =>
    if text.toList.all isDigit then
      let n := text.toList.foldl (fun n c => n * 10 + (c.toNat - 48)) 0
      if n < bound then some n else none
    else none
  | _ => none

/-- A value that may be `null`. -/
def nullable? {α : Type} (read : Json → Option α) : Json → Option (Option α)
  | .null => some none
  | v => (read v).map some

/-- The items of an array, each read. -/
def items? {α : Type} (read : Json → Option α) : Json → Option (List α)
  | .array items => items.mapM read
  | _ => none

/-- A field that must be there. -/
def required {α : Type} (read : Json → Option α) (v : Option Json) : Option α := v.bind read

/-- A field with a value for when it is missing. -/
def defaulted {α : Type} (default : α) (read : Json → Option α) : Option Json → Option α
  | none => some default
  | some v => read v

end Json

end HourlyPrices
