import CallTrace.Json.Value

/-! # Fields of an object

A record is read from an object by name.  The members of a name are looked up together
(`field`), so a name that is given twice is refused for a known field and harmless for an
unknown one, wherever it stands among the others. -/

namespace CallTrace.Json

/-- The text of a string. -/
def Value.text? : Value → Option String
  | .string t => t
  | _ => none

/-- An integer literal in the range of 64 bits with sign. -/
def Value.int64? : Value → Option Int64
  | .number n => n.toInt?.bind fun i =>
      if Int64.minValue.toInt ≤ i ∧ i ≤ Int64.maxValue.toInt then some (Int64.ofInt i) else none
  | _ => none

/-- An integer literal in the range of 32 bits with sign. -/
def Value.int32? : Value → Option Int32
  | .number n => n.toInt?.bind fun i =>
      if Int32.minValue.toInt ≤ i ∧ i ≤ Int32.maxValue.toInt then some (Int32.ofInt i) else none
  | _ => none

/-- The members of an object by the texts of their names; nothing if a name has no text. -/
def named? (members : List (Text × Value)) : Option (List (String × Value)) :=
  members.mapM fun (k, v) => k.map (·, v)

/-- The values given for a name. -/
def field (name : String) (members : List (String × Value)) : List Value :=
  (members.filter (·.1 = name)).map (·.2)

/-- A field that has to be there, once. -/
def required? {α : Type} (name : String) (read : Value → Option α)
    (members : List (String × Value)) : Option α :=
  match field name members with
  | [v] => read v
  | _ => none

/-- A field that may be missing, and then has a default. -/
def optional? {α : Type} (name : String) (read : Value → Option α) (default : α)
    (members : List (String × Value)) : Option α :=
  match field name members with
  | [] => some default
  | [v] => read v
  | _ => none

/-- An element of an array that may have ended before, and then has a default. -/
def element? {α : Type} (i : Nat) (read : Value → Option α) (default : α)
    (items : List Value) : Option α :=
  match items[i]? with
  | none => some default
  | some v => read v

end CallTrace.Json
