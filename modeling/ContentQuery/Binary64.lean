/-! Floating-point numbers of 64 bits, held exactly as a significand and a power of two. -/

namespace ContentQuery

/-- Each finite magnitude has one spelling: a full significand, or the least exponent. -/
def CanonicalParts (significand : Nat) (exponent : Int) : Prop :=
  significand < Nat.pow 2 53 ∧ -1074 ≤ exponent ∧ exponent ≤ 971
    ∧ (Nat.pow 2 52 ≤ significand ∨ exponent = -1074)

instance (significand : Nat) (exponent : Int) : Decidable (CanonicalParts significand exponent) :=
  inferInstanceAs (Decidable (_ ∧ _ ∧ _ ∧ (_ ∨ _)))

/-- A binary64 number: not a number, an infinity, or a significand times a power of two. -/
inductive Binary64 where
  | nan
  | infinite (negative : Bool)
  | finite (negative : Bool) (significand : Nat) (exponent : Int)
      (canonical : CanonicalParts significand exponent)
  deriving DecidableEq

namespace Binary64

/-- A number from its parts; a magnitude that has no canonical spelling is out of range. -/
def ofParts (negative : Bool) (significand : Nat) (exponent : Int) : Binary64 :=
  if canonical : CanonicalParts significand exponent then
    .finite negative significand exponent canonical
  else .infinite negative

/-- The quotient of two numbers rounded to the nearest integer, a half to the even neighbour. -/
def roundQuotient (numerator denominator : Nat) : Nat :=
  let quotient := numerator / denominator
  let twice := 2 * (numerator % denominator)
  if twice < denominator then quotient
  else if denominator < twice then quotient + 1
  else if quotient % 2 == 0 then quotient else quotient + 1

/-- A fraction divided by a power of two, as a numerator and a denominator. -/
def scaleDown (numerator denominator : Nat) (exponent : Int) : Nat × Nat :=
  (numerator * Nat.pow 2 (-exponent).toNat, denominator * Nat.pow 2 exponent.toNat)

/-- The exponent at which the significand of a positive fraction fills its 53 bits. -/
def fillingExponent (numerator denominator : Nat) : Int :=
  let estimate := (numerator.log2 : Int) - denominator.log2 - 52
  let (scaled, divisor) := scaleDown numerator denominator estimate
  if scaled < divisor * Nat.pow 2 52 then estimate - 1 else estimate

/-- The number nearest to a fraction, ties to the even significand. -/
def ofQuotient (negative : Bool) (numerator denominator : Nat) : Binary64 :=
  if numerator == 0 then ofParts negative 0 (-1074)
  else
    let exponent := max (fillingExponent numerator denominator) (-1074)
    let (scaled, divisor) := scaleDown numerator denominator exponent
    let significand := roundQuotient scaled divisor
    if significand == Nat.pow 2 53 then ofParts negative (Nat.pow 2 52) (exponent + 1)
    else ofParts negative significand exponent

/-- The number nearest to an integer, or none when the integer is out of range. -/
def ofInt? (value : Int) : Option Binary64 :=
  match ofQuotient (value < 0) value.natAbs 1 with
  | .infinite _ | .nan => none
  | number => some number

/-- Whether a number is neither an infinity nor nan. -/
def isFinite : Binary64 → Bool
  | .finite .. => true
  | _ => false

/-- Both zeros count as zero. -/
def isZero : Binary64 → Bool
  | .finite _ significand _ _ => significand == 0
  | _ => false

/-- Numerical equality: nan equals nothing, and the two zeros are equal. -/
def sameNumber (left right : Binary64) : Bool :=
  match left with
  | .nan => false
  | _ => left = right || (left.isZero && right.isZero)

/-- Whether a number is exactly an integer. -/
def sameInt (number : Binary64) (value : Int) : Bool :=
  match number with
  | .finite negative significand exponent _ =>
    let (scaled, divisor) := scaleDown significand 1 (-exponent)
    scaled == divisor * value.natAbs
      && (value == 0 || (value < 0 : Bool) == negative)
  | _ => false

end Binary64

end ContentQuery
