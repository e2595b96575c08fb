/-!
# Faults

What can go wrong while prices are configured, fetched and read, with the wording of each fault, and
the coarse kinds by which a retry is scheduled. An overflow is no fault: it ends the activity in
which it arises.
-/

namespace HourlyPrices

/-- A number or a time that cannot be represented. -/
inductive Overflow where
  | decimal
  | time
  deriving DecidableEq

/-- The value, or an overflow when there is none. -/
def Overflow.unless {α : Type} (o : Overflow) : Option α → Except Overflow α
  | some a => .ok a
  | none => .error o

/-- Something that went wrong. -/
inductive Fault where
  | config (message : String)
  | validation (field message : String)
  | communication (status : Option Nat) (message : String)
  | timeout (message : String)
  | parse (message : String)
  | empty (message : String)
  | dataIncomplete (expected actual : Nat)
  | unknownElement (name accepted : String)
  | serialization (message : String)
  | io (message : String)
  | cancelled (message : String)
  deriving DecidableEq

/-- The kinds of faults that scheduling tells apart. -/
inductive FaultKind where
  | configuration
  | communication
  | parse
  | dataIncomplete
  | cancelled
  deriving DecidableEq

namespace Fault

/-- The wording of a fault. -/
def message : Fault → String
  | .config m => "Configuration error: " ++ m
  | .validation f m => "Validation error: " ++ f ++ " - " ++ m
  | .communication _ m => "Communication error: " ++ m
  | .timeout m => "Timeout error: " ++ m
  | .parse m => "Parse error: " ++ m
  | .empty m => "Empty response: " ++ m
  | .dataIncomplete e a =>
    "Data incomplete: expected at least " ++ toString e ++ " records, got " ++ toString a
  | .unknownElement n a => "'" ++ n ++ "' has no corresponding value. Accepted values: " ++ a
  | .serialization m => "Serialization error: " ++ m
  | .io m => "I/O error: " ++ m
  | .cancelled m => "Cancelled: " ++ m

/-- The kind of a fault. -/
def kind : Fault → FaultKind
  | .config _ | .validation _ _ | .unknownElement _ _ => .configuration
  | .communication _ _ | .timeout _ | .empty _ | .io _ => .communication
  | .parse _ | .serialization _ => .parse
  | .dataIncomplete _ _ => .dataIncomplete
  | .cancelled _ => .cancelled

/-- The HTTP status that a communication fault carries, if any. -/
def status? : Fault → Option Nat
  | .communication status _ => status
  | _ => none

/-- Whether another attempt may succeed without outside help. -/
def isRetryable (f : Fault) : Bool := f.kind != .cancelled

end Fault

end HourlyPrices
