/-! # JSON values

A `Value` is what a JSON text says.  Two things are kept that a value of another language would
lose.  A number stays the literal it was written as (`Number`), because `1`, `1.0` and `1e0` are
accepted in different places; and a string literal whose escapes name a lone surrogate is a
legal literal without a text, so `Text` is optional.

`Number.toInt?` reads the integer literals: no fraction, no exponent, and no negative zero. -/

namespace CallTrace.Json

/-- What a string literal denotes: nothing if an escaped surrogate has no partner. -/
abbrev Text := Option String

/-- A number literal, as its strings of decimal digits. -/
structure Number where
  negative : Bool := false
  whole : List Char
  /-- The digits after the point, empty if there is no point. -/
  fraction : List Char := []
  /-- Whether the exponent is negative, and its digits. -/
  exponent : Option (Bool × List Char) := none
deriving DecidableEq, Repr

inductive Value where
  | null
  | bool (b : Bool)
  | number (n : Number)
  | string (t : Text)
  | array (items : List Value)
  /-- The members in the order of the text, repeated names included. -/
  | object (members : List (Text × Value))

/-! ### Digits -/

def isDigit (c : Char) : Bool := '0' ≤ c && c ≤ '9'

def digitValue (c : Char) : Nat := c.toNat - '0'.toNat

/-- The number that a string of decimal digits denotes. -/
def digitsValue (digits : List Char) : Nat :=
  digits.foldl (fun n c => 10 * n + digitValue c) 0

namespace Number

/-- The value of an integer literal. -/
def toInt? (n : Number) : Option Int :=
  if n.fraction.isEmpty && n.exponent.isNone then
    let magnitude := digitsValue n.whole
    if n.negative then
      if magnitude = 0 then none else some (-(magnitude : Int))
    else some magnitude
  else none

/-- The literal of an integer. -/
def ofInt (i : Int) : Number where
  negative := decide (i < 0)
  whole := Nat.toDigits 10 i.natAbs

end Number

namespace Value

def ofString (s : String) : Value := .string (some s)

def ofInt (i : Int) : Value := .number (.ofInt i)

end Value
end CallTrace.Json
