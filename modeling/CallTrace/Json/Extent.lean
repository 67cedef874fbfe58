import CallTrace.Json.Value

/-! # Bounded values

Some records are kept whole while they are read, and only values of bounded extent can be kept:
containers nest to a bounded depth (`Value.nestsWithin`), every string has a text, and every
number lies in the range of a double (`Number.inRange`).

A number is weighed as the leading digits that fit into 64 bits, times a power of ten.  Both are
rounded to 53 significant bits, and the number is out of range if that power is beyond 10 ^ 308
or the product rounds past the largest double. -/

namespace CallTrace.Json

/-- `n` to 53 significant bits, a tie going to the even neighbour. -/
def roundToDouble (n : Nat) : Nat :=
  let shift := n.log2 - 52
  let unit := 1 <<< shift
  let quotient := n / unit
  let rest := n % unit
  let up := unit < 2 * rest ∨ (unit = 2 * rest ∧ quotient % 2 = 1)
  (if up then quotient + 1 else quotient) * unit

/-- Appends digits to a number of 64 bits while they fit, and counts those that did. -/
def absorb (n : Nat) : List Char → Nat × Nat
  | [] => (n, 0)
  | c :: digits =>
    let next := 10 * n + digitValue c
    if next < UInt64.size then
      let (m, count) := absorb next digits
      (m, count + 1)
    else (n, 0)

namespace Number

/-- The leading digits as a number of 64 bits, and the power of ten it is multiplied by. -/
def scaled (n : Number) : Nat × Int :=
  let (upper, wholeCount) := absorb 0 n.whole
  let (significand, fractionCount) := absorb upper n.fraction
  let written : Int := match n.exponent with
    | none => 0
    | some (true, digits) => -(digitsValue digits : Int)
    | some (false, digits) => digitsValue digits
  (significand, (n.whole.length - wholeCount : Int) - fractionCount + written)

/-- Halfway between the largest double and the power of two after it; from here on a number
rounds to infinity. -/
def overflowBound : Nat := (1 <<< 1024) - (1 <<< 970)

def inRange (n : Number) : Bool :=
  let (significand, power) := n.scaled
  if significand = 0 ∨ power < 0 then true
  else if 308 < power then false
  else decide (roundToDouble significand * roundToDouble (Nat.pow 10 power.toNat) < overflowBound)

end Number

/-- Whether a value can be kept with at most `depth` containers around each other. -/
def Value.nestsWithin : Nat → Value → Bool
  | _, .null => true
  | _, .bool _ => true
  | _, .number n => n.inRange
  | _, .string t => t.isSome
  | 0, .array _ => false
  | 0, .object _ => false
  | depth + 1, .array items => items.all (nestsWithin depth)
  | depth + 1, .object members =>
      members.all fun (k, v) => k.isSome && nestsWithin depth v

end CallTrace.Json
