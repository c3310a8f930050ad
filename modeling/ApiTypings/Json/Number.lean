/-
# Numbers of JSON texts

The value of a number that is written with a sign, digits, a fraction and an exponent.

A whole number of 64 bits is exact.  Any other number becomes a double from its leading digits:
digits are taken as long as they fit into 64 bits, and their number is multiplied with or divided
by the power of ten that is left, rounding at each step.  A number beyond the doubles has no value.
-/
import ApiTypings.Json.Basic

namespace ApiTypings.Json

/-- The parts of a written number. -/
structure NumberParts where
  negative : Bool
  /-- The digits in front of the point. -/
  whole : List Char
  /-- The digits behind the point, if there is a point. -/
  fraction : Option (List Char)
  /-- The exponent, if there is one. -/
  exponent : Option Int

/-- The value of a digit. -/
def digitValue (c : Char) : Nat := c.toNat - '0'.toNat

/-- The number that digits denote. -/
def natOfDigits (cs : List Char) : Nat := cs.foldl (fun n c => 10 * n + digitValue c) 0

/-- The first number that does not fit into 64 bits. -/
def wordLimit : Nat := Decimal.twoTo 64

/-- A number followed by digits, as long as the result fits into 64 bits, and the digits left. -/
def absorb (n : Nat) : List Char → Nat × List Char
  | [] => (n, [])
  | c :: cs =>
    if 10 * n + digitValue c < wordLimit then absorb (10 * n + digitValue c) cs else (n, c :: cs)

/-- A power of ten as a double. -/
def powerOfTen (e : Nat) : Float := Float.ofScientific 1 false e

/-- A double times a power of ten, if that is a double. -/
def scaleByTen (x : Float) (e : Int) : Option Float :=
  if e.natAbs ≤ 308 then
    if 0 ≤ e then
      let y := x * powerOfTen e.natAbs
      if y.isFinite then some y else none
    else some (x / powerOfTen e.natAbs)
  else if x == 0 then some x
  else if 0 ≤ e then none
  else scaleByTen (x / powerOfTen 308) (e + 308)
termination_by e.natAbs
decreasing_by omega

/-- The value of a number that is no whole number of 64 bits. -/
def doubleOf (p : NumberParts) : Option Float :=
  let (n, wholeLeft) := absorb 0 p.whole
  let fraction := p.fraction.getD []
  let (n, fractionLeft) := absorb n fraction
  let e : Int := wholeLeft.length - (fraction.length - fractionLeft.length : Nat)
    + p.exponent.getD 0
  (scaleByTen (UInt64.ofNat n).toFloat e).map fun x => if p.negative then -x else x

/-- The value of a whole number, if it has 64 bits; zero with a sign is no such number. -/
def wholeOf? (p : NumberParts) : Option Int :=
  let n := natOfDigits p.whole
  if p.fraction.isSome || p.exponent.isSome then none
  else if p.negative then
    if 0 < n ∧ n ≤ Decimal.twoTo 63 then some (-n) else none
  else if n < wordLimit then some n
  else none

/-- The tree of a number. -/
def ofNumber (p : NumberParts) : Json :=
  match wholeOf? p with
  | some n => integer n
  | none =>
    match doubleOf p with
    | some x => float x
    | none => valueless

end ApiTypings.Json
