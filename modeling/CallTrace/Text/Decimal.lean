import CallTrace.Json.Value

/-! # Decimal numbers in settings

Integers as people write them: a sign, which may be missing, and decimal digits, of which the
leading ones may be zeros.  Only the ten ASCII digits count, and a natural number takes no minus
sign, not even before a zero. -/

namespace CallTrace.Text

/-- The value of a text of digits, of which there has to be one. -/
def digits? (text : List Char) : Option Nat :=
  if !text.isEmpty && text.all Json.isDigit then some (Json.digitsValue text) else none

/-- A natural number below a bound. -/
def natural? (bound : Nat) (s : String) : Option Nat :=
  let magnitude := match s.toList with
    | '+' :: rest => digits? rest
    | text => digits? text
  magnitude.filter (· < bound)

/-- An integer of 64 bits with sign. -/
def integer? (s : String) : Option Int64 :=
  let value : Option Int := match s.toList with
    | '+' :: rest => (digits? rest).map Int.ofNat
    | '-' :: rest => (digits? rest).map fun n => -Int.ofNat n
    | text => (digits? text).map Int.ofNat
  (value.filter fun i => Int64.minValue.toInt ≤ i ∧ i ≤ Int64.maxValue.toInt).map Int64.ofInt

def truth? (s : String) : Option Bool :=
  if s = "true" then some true else if s = "false" then some false else none

end CallTrace.Text
