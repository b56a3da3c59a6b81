import ContentQuery.Binary64.Arithmetic
import ContentQuery.Proofs.Compilation
import Mathlib.Tactic.Ring

/-! Numbers of all kinds are equal exactly when they are worth the same. -/

namespace ContentQuery

namespace Binary64

/-- What one is worth is a power of two, and so a product of any two whose exponents add up. -/
theorem unitsOfOne_eq {high low : Nat} (whole : 1074 = high + low) :
    unitsOfOne = 2 ^ high * 2 ^ low := by
  unfold unitsOfOne
  rw [whole]
  exact Nat.pow_add 2 high low

/-- One is worth some of the smallest positive numbers. -/
theorem unitsOfOne_pos : 0 < unitsOfOne := by
  rw [unitsOfOne_eq (Nat.zero_add 1074).symm]
  generalize 1074 = bits
  exact Nat.mul_pos (Nat.two_pow_pos 0) (Nat.two_pow_pos bits)

/-- What a number is worth in units of the smallest positive one; infinities are worth nothing. -/
def worth? : Binary64 → Option Int
  | .finite negative significand exponent _ => some (units negative significand exponent)
  | _ => none

/-- What an integer is worth in the same units. -/
def worthOf (value : Int) : Int :=
  value * unitsOfOne

/-- Integers that are worth the same are the same. -/
@[simp]
theorem worthOf_inj {value value' : Int} : worthOf value = worthOf value' ↔ value = value' := by
  have positive : (unitsOfOne : Int) ≠ 0 :=
    Int.natCast_ne_zero.mpr (Nat.ne_of_gt unitsOfOne_pos)
  exact Int.mul_eq_mul_right_iff positive

/-- Exactly the finite numbers are worth something. -/
theorem exists_worth_iff (number : Binary64) :
    (∃ worth, number.worth? = some worth) ↔ number.isFinite = true := by
  cases number <;> simp [worth?, isFinite]

section Magnitude

variable {significand significand' : Nat} {exponent exponent' : Int}

/-- A larger exponent belongs to a larger magnitude, since its significand is full. -/
theorem not_lt_of_magnitude (canonical : CanonicalParts significand exponent)
    (canonical' : CanonicalParts significand' exponent')
    (same : significand * Nat.pow 2 (exponent + 1074).toNat =
      significand' * Nat.pow 2 (exponent' + 1074).toNat) : ¬ exponent < exponent' := by
  intro below
  obtain ⟨bounded, least, -⟩ := canonical
  -- The larger exponent is not the least one, so that its significand has all its bits.
  obtain ⟨-, -, -, full⟩ := canonical'
  have full : Nat.pow 2 52 ≤ significand' := full.resolve_right (by omega)
  obtain ⟨gap, apart⟩ : ∃ gap, (exponent' + 1074).toNat = (exponent + 1074).toNat + (gap + 1) :=
    ⟨(exponent' - exponent).toNat - 1, by omega⟩
  have shifted : significand = significand' * 2 ^ (gap + 1) := by
    have positive : 0 < 2 ^ (exponent + 1074).toNat := Nat.pow_pos (by decide)
    refine Nat.eq_of_mul_eq_mul_right positive ?_
    rw [apart] at same
    calc significand * 2 ^ (exponent + 1074).toNat
        = significand' * 2 ^ ((exponent + 1074).toNat + (gap + 1)) := same
      _ = significand' * 2 ^ (gap + 1) * 2 ^ (exponent + 1074).toNat := by ring
  -- Shifted by one bit or more, it would be out of bounds.
  have doubled : 2 * Nat.pow 2 52 ≤ significand' * 2 ^ (gap + 1) := by
    have once : 1 ≤ 2 ^ gap := Nat.one_le_two_pow
    calc 2 * Nat.pow 2 52 ≤ 2 * significand' := Nat.mul_le_mul_left 2 full
      _ = significand' * 2 * 1 := by ring
      _ ≤ significand' * 2 * 2 ^ gap := Nat.mul_le_mul_left _ once
      _ = significand' * 2 ^ (gap + 1) := by ring
  have limit : Nat.pow 2 53 = 2 * Nat.pow 2 52 := by decide
  omega

/-- A magnitude has one spelling. -/
theorem parts_of_magnitude (canonical : CanonicalParts significand exponent)
    (canonical' : CanonicalParts significand' exponent')
    (same : significand * Nat.pow 2 (exponent + 1074).toNat =
      significand' * Nat.pow 2 (exponent' + 1074).toNat) :
    significand = significand' ∧ exponent = exponent' := by
  -- Neither exponent can be below the other.
  have above := not_lt_of_magnitude canonical canonical' same
  have below := not_lt_of_magnitude canonical' canonical same.symm
  obtain rfl : exponent = exponent' := by omega
  refine ⟨Nat.eq_of_mul_eq_mul_right ?_ same, rfl⟩
  exact Nat.pow_pos (by decide)

end Magnitude

/-- A number of no magnitude is worth zero, whatever its sign, and only such a number is. -/
theorem units_eq_zero {negative : Bool} {significand : Nat} {exponent : Int} :
    units negative significand exponent = 0 ↔ significand = 0 := by
  -- A step is never zero.
  have positive : 0 < Nat.pow 2 (exponent + 1074).toNat := Nat.pow_pos (by decide)
  have nothing : significand * Nat.pow 2 (exponent + 1074).toNat = 0 ↔ significand = 0 := by
    rw [Nat.mul_eq_zero]
    omega
  rw [← nothing]
  cases negative <;> simp [units]

/-- Numbers that are worth the same, and not nothing, agree in their signs and magnitudes. -/
theorem parts_of_units {negative negative' : Bool} {significand significand' : Nat}
    {exponent exponent' : Int} (positive : 0 < significand * Nat.pow 2 (exponent + 1074).toNat)
    (same : units negative significand exponent = units negative' significand' exponent') :
    negative' = negative ∧ significand' * Nat.pow 2 (exponent' + 1074).toNat =
      significand * Nat.pow 2 (exponent + 1074).toNat := by
  unfold units at same
  -- Only the magnitudes matter from here on, and not what they are made of.
  generalize significand * Nat.pow 2 (exponent + 1074).toNat = magnitude at positive same ⊢
  generalize significand' * Nat.pow 2 (exponent' + 1074).toNat = magnitude' at same ⊢
  cases negative <;> cases negative' <;>
    simp only [Bool.false_eq_true, if_true, if_false, true_and, reduceCtorEq, false_and] at same ⊢
      <;> omega

/-- Numbers are equal exactly when they are worth the same. -/
theorem sameNumber_iff {number : Binary64} {worth : Int} (counted : number.worth? = some worth)
    (other : Binary64) : other.sameNumber number = true ↔ other.worth? = some worth := by
  cases number with
  | nan | infinite => exact nomatch counted
  | finite negative significand exponent canonical =>
    cases other with
    -- What is not finite is worth nothing, and differs from every finite number.
    | nan => simp [sameNumber, worth?]
    | infinite => simp [sameNumber, worth?, isZero]
    | finite negative' significand' exponent' canonical' =>
      obtain rfl := Option.some.inj counted
      simp only [worth?, Option.some.injEq]
      by_cases zero : significand = 0
      · -- The two zeros are equal, and both are worth zero.
        subst zero
        have nothing : units negative 0 exponent = 0 := units_eq_zero.mpr rfl
        rw [nothing, units_eq_zero]
        simp only [sameNumber, isZero, beq_self_eq_true, Bool.and_true, Bool.or_eq_true,
          decide_eq_true_eq, beq_iff_eq, finite.injEq]
        omega
      · -- Other numbers have one spelling each.
        have unequal : (significand == 0) = false := by simpa using zero
        simp only [sameNumber, isZero, unequal, Bool.and_false, Bool.or_false, decide_eq_true_eq,
          finite.injEq]
        constructor
        · rintro ⟨rfl, rfl, rfl⟩
          rfl
        · intro same
          have positive : 0 < significand * Nat.pow 2 (exponent + 1074).toNat :=
            Nat.mul_pos (Nat.pos_of_ne_zero zero) (Nat.pow_pos (by decide))
          obtain ⟨rfl, magnitude⟩ := parts_of_units positive same.symm
          obtain ⟨rfl, rfl⟩ := parts_of_magnitude canonical' canonical magnitude
          exact ⟨rfl, rfl, rfl⟩

/-- A scaled magnitude equals an integer exactly when both are worth the same. -/
theorem scaled_eq_iff {significand count : Nat} {exponent : Int} (least : -1074 ≤ exponent) :
    significand * Nat.pow 2 exponent.toNat = 1 * Nat.pow 2 (-exponent).toNat * count ↔
      significand * Nat.pow 2 (exponent + 1074).toNat = count * unitsOfOne := by
  -- Both sides are multiplied with the power of two that is missing.
  obtain ⟨missing, above, below⟩ : ∃ missing,
      (exponent + 1074).toNat = exponent.toNat + missing ∧ 1074 = (-exponent).toNat + missing :=
    ⟨1074 - (-exponent).toNat, by omega, by omega⟩
  have positive : 0 < 2 ^ missing := Nat.pow_pos (by decide)
  rw [unitsOfOne_eq below, above]
  show significand * 2 ^ exponent.toNat = 1 * 2 ^ (-exponent).toNat * count ↔
    significand * 2 ^ (exponent.toNat + missing) = count * (2 ^ (-exponent).toNat * 2 ^ missing)
  rw [← Nat.mul_left_inj (Nat.pos_iff_ne_zero.mp positive)]
  constructor
  · intro same
    calc significand * 2 ^ (exponent.toNat + missing)
        = significand * 2 ^ exponent.toNat * 2 ^ missing := by ring
      _ = 1 * 2 ^ (-exponent).toNat * count * 2 ^ missing := same
      _ = count * (2 ^ (-exponent).toNat * 2 ^ missing) := by ring
  · intro same
    calc significand * 2 ^ exponent.toNat * 2 ^ missing
        = significand * 2 ^ (exponent.toNat + missing) := by ring
      _ = count * (2 ^ (-exponent).toNat * 2 ^ missing) := same
      _ = 1 * 2 ^ (-exponent).toNat * count * 2 ^ missing := by ring

/-- Of magnitudes that agree, the signs are compared, and only zero has no sign of its own. -/
theorem sign_iff {unit magnitude : Nat} {negative : Bool} {value : Int} (positive : 0 < unit) :
    magnitude = value.natAbs * unit ∧ (value = 0 ∨ decide (value < 0) = negative) ↔
      (if negative then -(magnitude : Int) else magnitude) = value * unit := by
  by_cases zero : value = 0
  · subst zero
    cases negative <;> simp
  · -- A product with what is positive has the sign of its other factor.
    have sign : value * unit < 0 ↔ value < 0 := by
      constructor
      · intro below
        by_contra above
        have := Int.mul_nonneg (Int.not_lt.mp above) (Int.natCast_nonneg unit)
        omega
      · intro below
        exact Int.mul_neg_of_neg_of_pos below (Int.natCast_pos.mpr positive)
    have apart : value * unit ≠ 0 := Int.mul_ne_zero zero (by omega)
    have size : ((value.natAbs * unit : Nat) : Int) = ((value * unit).natAbs : Int) := by
      rw [Int.natAbs_mul, Int.natAbs_natCast]
    generalize value.natAbs * unit = count at size ⊢
    generalize value * (unit : Int) = product at sign apart size ⊢
    cases negative
    · simp only [zero, false_or, decide_eq_false_iff_not, Bool.false_eq_true, if_false]
      omega
    · simp only [zero, false_or, decide_eq_true_eq, if_true]
      omega

/-- A number is an integer exactly when it is worth as much. -/
theorem sameInt_iff (number : Binary64) (value : Int) :
    number.sameInt value = true ↔ number.worth? = some (worthOf value) := by
  -- Both sides count the same number in the smallest step of floats.
  cases number with
  | nan => simp [sameInt, worth?]
  | infinite => simp [sameInt, worth?]
  | finite negative significand exponent canonical =>
    have scaled : significand * Nat.pow 2 (-(-exponent)).toNat =
        1 * Nat.pow 2 (-exponent).toNat * value.natAbs ↔
          significand * Nat.pow 2 (exponent + 1074).toNat = value.natAbs * unitsOfOne := by
      rw [Int.neg_neg]
      exact scaled_eq_iff canonical.2.1
    simp only [sameInt, scaleDown, worth?, units, Bool.and_eq_true, beq_iff_eq, Bool.or_eq_true,
      scaled, Option.some.injEq]
    exact sign_iff unitsOfOne_pos

end Binary64

namespace Parameter

/-- What a parameter is compared by: a text by itself, and a number by what it is worth. -/
def sense? : Parameter → Option (String ⊕ Int)
  | .text value => some (.inl value)
  | .int value => some (.inr (Binary64.worthOf value))
  | .float value => value.worth?.map .inr

/-- Parameters are equal exactly when they have the same sense. -/
theorem same_iff {left right : Parameter} {sense : String ⊕ Int}
    (sensible : right.sense? = some sense) :
    left.same right = true ↔ left.sense? = some sense := by
  -- A number has the sense of its worth, which is compared as the kinds of the two require.
  cases right with
  | text words =>
    obtain rfl := Option.some.inj sensible
    cases left <;> simp [same, sense?]
  | int count =>
    obtain rfl := Option.some.inj sensible
    cases left with
    | text words => simp [same, sense?]
    | int count' => simp [same, sense?]
    | float number => simp [same, sense?, Binary64.sameInt_iff]
  | float number =>
    obtain ⟨worth, counted, rfl⟩ := Option.map_eq_some_iff.mp sensible
    cases left with
    | text words => simp [same, sense?]
    | int count =>
      show number.sameInt count = true ↔ _
      rw [Binary64.sameInt_iff, counted]
      simp [sense?, eq_comm]
    | float number' => simp [same, sense?, Binary64.sameNumber_iff counted]

/-- Where both have a sense, parameters are equal exactly when it is the same one. -/
theorem same_iff_sense {left right : Parameter} (sensible : right.sense?.isSome = true) :
    left.same right = true ↔ left.sense? = right.sense? := by
  obtain ⟨sense, known⟩ := Option.isSome_iff_exists.mp sensible
  rw [same_iff known, known]

/-- The parameter of a scalar has a sense, for what is not finite has no parameter. -/
theorem sensible_ofScalar {value : Value} {parameter : Parameter}
    (made : ofScalar value = .ok parameter) : parameter.sense?.isSome = true := by
  -- A float that is sent is finite, and finite floats have a worth.
  unfold ofScalar at made
  split at made
  · cases made
    rfl
  · cases made
    rfl
  · rename_i number _
    split at made
    · rename_i finite
      cases made
      obtain ⟨worth, counted⟩ := (Binary64.exists_worth_iff number).mpr finite
      simp [sense?, counted]
    · exact nomatch made
  · cases made
    rfl
  · exact nomatch made
  · exact nomatch made

/-- The parameter of a list has a sense, for it is a text. -/
theorem sensible_ofItems {items : List Value} {parameter : Parameter}
    (made : ofItems items = .ok parameter) : parameter.sense?.isSome = true := by
  -- A list is sent as a text.
  unfold ofItems at made
  split at made
  · exact nomatch made
  · obtain ⟨parts, -, same⟩ := ok_of_bind made
    cases same
    rfl

/-- The parameter of a literal has a sense. -/
theorem sensible_ofValue {value : Value} {parameter : Parameter}
    (made : ofValue value = .ok parameter) : parameter.sense?.isSome = true := by
  have scalar (taken : ofValue value = ofScalar value) : parameter.sense?.isSome = true :=
    sensible_ofScalar (taken.symm.trans made)
  -- A list has items, a map is refused, and any other literal is taken for a scalar.
  cases value with
  | list _ | tuple _ => exact sensible_ofItems made
  | set _ _ =>
    obtain ⟨-, -, made⟩ := ok_of_bind made
    exact sensible_ofItems made
  | map _ => exact nomatch made
  | null | bool _ | int _ | float _ | text _ | bytes _ | uuid _ | moment _ | date _ | time _
  | operator _ | member _ | foreign | node _ _ _ _ _ _ | sortKey _ | projection _ =>
    exact scalar rfl

end Parameter

end ContentQuery
