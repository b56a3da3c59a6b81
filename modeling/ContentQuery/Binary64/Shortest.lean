import ContentQuery.Binary64

/-! The fewest decimal digits that read back as a given floating-point number. -/

namespace ContentQuery.Binary64

/-- The decimal exponent of the first digit of a positive fraction. -/
def decimalExponent (numerator denominator : Nat) : Int :=
  if denominator ≤ numerator then
    ((Nat.toDigits 10 (numerator / denominator)).length : Int) - 1
  else -((Nat.toDigits 10 ((denominator - 1) / numerator)).length : Int)

/-- The fractions that round to one number, in quarters of its last place, over a common divisor. -/
structure RoundingInterval where
  /-- The number itself. -/
  middle : Nat
  /-- The least fraction that may round to the number. -/
  low : Nat
  /-- The greatest fraction that may round to the number. -/
  high : Nat
  /-- Whether the two ends round to the number themselves. -/
  closed : Bool
  /-- What the decimal places are counted in on the same scale. -/
  place : Nat

/--
The interval around a number, scaled so that one decimal place of weight `10 ^ weight` is whole.
-/
def RoundingInterval.around (significand : Nat) (exponent weight : Int) : RoundingInterval :=
  let unit := Nat.pow 2 (exponent - 2).toNat * Nat.pow 10 (-weight).toNat
  -- Below a power of two the neighbours lie twice as close.
  let below := if significand == Nat.pow 2 52 && -1074 < exponent then 1 else 2
  { middle := 4 * significand * unit
    low := (4 * significand - below) * unit
    high := (4 * significand + 2) * unit
    closed := significand % 2 == 0
    place := Nat.pow 10 weight.toNat * Nat.pow 2 (2 - exponent).toNat }

/-- Whether a count of decimal places lies in the interval. -/
def RoundingInterval.holds (interval : RoundingInterval) (count : Nat) : Bool :=
  let value := count * interval.place
  if interval.closed then interval.low ≤ value && value ≤ interval.high
  else interval.low < value && value < interval.high

/-- The count of decimal places nearest to the number among its two neighbours in the interval. -/
def RoundingInterval.nearest? (interval : RoundingInterval) : Option Nat :=
  let lower := interval.middle / interval.place
  let upper := lower + 1
  match interval.holds lower, interval.holds upper with
  | true, true =>
    let down := interval.middle - lower * interval.place
    let up := upper * interval.place - interval.middle
    some (if down < up then lower else if up < down then upper
      else if lower % 2 == 0 then lower else upper)
  | true, false => some lower
  | false, true => some upper
  | false, false => none

/-- Tries growing digit counts until one of them holds a decimal that reads back. -/
def shortestFrom (significand : Nat) (exponent leading : Int) :
    (attempts count : Nat) → Nat × Int
  | 0, count => (0, leading - count + 1)
  | attempts + 1, count =>
    let weight := leading - count + 1
    match (RoundingInterval.around significand exponent weight).nearest? with
    | some digits => (digits, weight)
    | none => shortestFrom significand exponent leading attempts (count + 1)

/-- The shortest decimal `digits * 10 ^ weight` that reads back as `significand * 2 ^ exponent`. -/
def shortest (significand : Nat) (exponent : Int) : Nat × Int :=
  let (numerator, denominator) := scaleDown significand 1 (-exponent)
  -- Seventeen digits tell any two numbers apart.
  shortestFrom significand exponent (decimalExponent numerator denominator) 17 1

end ContentQuery.Binary64
