import ContentQuery.Binary64

/-! Sums of floating-point numbers, and how they compare with integers, in exact arithmetic. -/

namespace ContentQuery.Binary64

/-- How many of the smallest positive numbers make up one. -/
def unitsOfOne : Nat :=
  Nat.pow 2 1074

/-- The value of a finite number, counted in the smallest positive number. -/
def units (negative : Bool) (significand : Nat) (exponent : Int) : Int :=
  let magnitude := significand * Nat.pow 2 (exponent + 1074).toNat
  if negative then -(magnitude : Int) else magnitude

/-- The exact sum rounded once; opposite infinities have none, and zeros keep a shared sign. -/
def add : Binary64 → Binary64 → Binary64
  | .nan, _ => .nan
  | _, .nan => .nan
  | .infinite left, .infinite right => if left = right then .infinite left else .nan
  | .infinite sign, .finite .. => .infinite sign
  | .finite .., .infinite sign => .infinite sign
  | .finite left leftPart leftPower _, .finite right rightPart rightPower _ =>
    let sum := units left leftPart leftPower + units right rightPart rightPower
    if sum = 0 then ofParts (left && right) 0 (-1074)
    else ofQuotient (sum < 0) sum.natAbs unitsOfOne

/-- Whether a number lies below an integer; nan lies nowhere. -/
def isBelow (number : Binary64) (value : Int) : Bool :=
  match number with
  | .nan => false
  | .infinite negative => negative
  | .finite negative significand exponent _ =>
    units negative significand exponent < value * unitsOfOne

/-- The integer between zero and a finite number that lies next to the number. -/
def truncate? : Binary64 → Option Int
  | .finite negative significand exponent _ =>
    some ((units negative significand exponent).tdiv unitsOfOne)
  | _ => none

end ContentQuery.Binary64
