import ContentQuery.Binary64.Shortest
import Mathlib.Algebra.Order.Field.Basic
import Mathlib.Algebra.Order.Field.Power
import Mathlib.Tactic.FieldSimp
import Mathlib.Tactic.Linarith
import Mathlib.Tactic.NormNum
import Mathlib.Tactic.Ring

/-! The shortest decimals of floating-point numbers: each has one, and no two share one. -/

namespace ContentQuery.Binary64

section Ends

variable {significand significand' : Nat} {exponent exponent' : Int} {decimal : ℚ}

/-- How far down decimals round to a number, in quarters of its last place. -/
def quartersBelow (significand : Nat) (exponent : Int) : Nat :=
  if significand == Nat.pow 2 52 && -1074 < exponent then 1 else 2

/-- The least fraction that may round to a number. -/
def lowEnd (significand : Nat) (exponent : Int) : ℚ :=
  (4 * significand - quartersBelow significand exponent) * 2 ^ (exponent - 2)

/-- The greatest fraction that may round to a number. -/
def highEnd (significand : Nat) (exponent : Int) : ℚ :=
  (4 * significand + 2) * 2 ^ (exponent - 2)

/-- Whether a fraction rounds to a number, whose ends do so where its last bit is zero. -/
def RoundsTo (significand : Nat) (exponent : Int) (fraction : ℚ) : Prop :=
  if significand % 2 = 0 then
    lowEnd significand exponent ≤ fraction ∧ fraction ≤ highEnd significand exponent
  else lowEnd significand exponent < fraction ∧ fraction < highEnd significand exponent

/-- The interval of a number ends before that of the next, or where one of the two is odd. -/
def EndsBefore (significand : Nat) (exponent : Int) (significand' : Nat) (exponent' : Int) : Prop :=
  highEnd significand exponent < lowEnd significand' exponent' ∨
    highEnd significand exponent = lowEnd significand' exponent' ∧
      (significand % 2 = 1 ∨ significand' % 2 = 1)

/-- The interval of a number ends before those of numbers with a greater significand. -/
theorem endsBefore_of_significand (exponent : Int) (below : significand < significand') :
    EndsBefore significand exponent significand' exponent := by
  -- Half a step lies above the one number and at most half a step below the other.
  have positive : (0 : ℚ) < 2 ^ (exponent - 2) := zpow_pos (by norm_num) _
  have near : quartersBelow significand' exponent ≤ 2 := by
    unfold quartersBelow
    split <;> omega
  unfold EndsBefore highEnd lowEnd
  by_cases touching : 4 * significand + 2 + quartersBelow significand' exponent = 4 * significand'
  · -- Of two significands next to each other, one is odd.
    refine Or.inr ⟨?_, by omega⟩
    have same : (4 * significand + 2 : ℚ) = 4 * significand' -
        quartersBelow significand' exponent := by
      rw [eq_sub_iff_add_eq]
      exact_mod_cast touching
    rw [same]
  · refine Or.inl (mul_lt_mul_of_pos_right ?_ positive)
    rw [lt_sub_iff_add_lt]
    have apart : 4 * significand + 2 + quartersBelow significand' exponent < 4 * significand' := by
      omega
    exact_mod_cast apart

/-- The interval of a number ends before those of numbers with a greater exponent. -/
theorem endsBefore_of_exponent (canonical : CanonicalParts significand exponent)
    (canonical' : CanonicalParts significand' exponent') (below : exponent < exponent') :
    EndsBefore significand exponent significand' exponent' := by
  have positive : (0 : ℚ) < 2 ^ (exponent - 2) := zpow_pos (by norm_num) _
  obtain ⟨bounded, least, -, -⟩ := canonical
  have bounded : significand < 9007199254740992 := bounded
  -- The greater exponent belongs to a full significand.
  have full : 4503599627370496 ≤ significand' := canonical'.2.2.2.resolve_right (by omega)
  have quarters : 18014398509481983 + quartersBelow significand' exponent' ≤ 4 * significand' := by
    unfold quartersBelow
    split
    · omega
    · rename_i apart
      have : significand' ≠ 4503599627370496 := by
        rintro rfl
        exact apart (by simp; omega)
      omega
  have start : 18014398509481983 * (2 * 2 ^ (exponent - 2)) ≤ lowEnd significand' exponent' := by
    have above : (18014398509481983 : ℚ) ≤
        4 * significand' - quartersBelow significand' exponent' := by
      rw [le_sub_iff_add_le]
      exact_mod_cast quarters
    have doubled : (2 : ℚ) * 2 ^ (exponent - 2) ≤ 2 ^ (exponent' - 2) := by
      rw [← zpow_one_add₀ (by norm_num : (2 : ℚ) ≠ 0)]
      exact zpow_le_zpow_right₀ (by norm_num) (by omega)
    exact mul_le_mul above doubled (by positivity) (by linarith)
  unfold EndsBefore
  by_cases greatest : significand = 9007199254740991
  · -- Only the greatest significand comes up to what lies one bit further up, and it is odd.
    have last : highEnd significand exponent = 18014398509481983 * (2 * 2 ^ (exponent - 2)) := by
      rw [highEnd, greatest]
      push_cast
      ring
    rw [← last] at start
    rcases lt_or_eq_of_le start with before | same
    · exact Or.inl before
    · exact Or.inr ⟨same, by omega⟩
  · refine Or.inl (lt_of_lt_of_le ?_ start)
    have less : 4 * significand + 2 < 18014398509481983 * 2 := by omega
    have less : (4 * significand + 2 : ℚ) < 18014398509481983 * 2 := by exact_mod_cast less
    rw [highEnd, ← mul_assoc]
    exact mul_lt_mul_of_pos_right less positive

/-- What rounds to a number does not round to one whose interval comes later. -/
theorem EndsBefore.not_both (before : EndsBefore significand exponent significand' exponent')
    (rounds : RoundsTo significand exponent decimal)
    (rounds' : RoundsTo significand' exponent' decimal) : False := by
  -- A decimal that rounds to both lies below the end of the one and above the start of the other.
  have upper : decimal ≤ highEnd significand exponent := by
    unfold RoundsTo at rounds
    split at rounds
    · exact rounds.2
    · exact rounds.2.le
  have lower : lowEnd significand' exponent' ≤ decimal := by
    unfold RoundsTo at rounds'
    split at rounds'
    · exact rounds'.1
    · exact rounds'.1.le
  rcases before with before | ⟨touching, odd⟩
  · linarith
  · -- Where the intervals touch, the end is left out on the odd side.
    unfold RoundsTo at rounds rounds'
    rcases odd with odd | odd
    · rw [if_neg (by omega)] at rounds
      linarith [rounds.2]
    · rw [if_neg (by omega)] at rounds'
      linarith [rounds'.1]

/-- A fraction rounds to one number at most. -/
theorem parts_of_roundsTo (canonical : CanonicalParts significand exponent)
    (canonical' : CanonicalParts significand' exponent')
    (rounds : RoundsTo significand exponent decimal)
    (rounds' : RoundsTo significand' exponent' decimal) :
    significand = significand' ∧ exponent = exponent' := by
  -- Of two different numbers one ends before the other starts, first by the exponent and then by
  -- the significand.
  rcases lt_trichotomy exponent exponent' with below | rfl | above
  · exact ((endsBefore_of_exponent canonical canonical' below).not_both rounds rounds').elim
  · refine ⟨?_, rfl⟩
    rcases lt_trichotomy significand significand' with below | same | above
    · exact ((endsBefore_of_significand exponent below).not_both rounds rounds').elim
    · exact same
    · exact ((endsBefore_of_significand exponent above).not_both rounds' rounds).elim
  · exact ((endsBefore_of_exponent canonical' canonical above).not_both rounds' rounds).elim

end Ends

section Search

variable {significand : Nat} {exponent weight : Int}

/-- A power with an integer exponent times what makes the power whole. -/
theorem zpow_mul_pow {base : ℚ} (nonzero : base ≠ 0) (power : Int) :
    base ^ power * base ^ (-power).toNat = base ^ power.toNat := by
  rw [← zpow_natCast, ← zpow_natCast, ← zpow_add₀ nonzero]
  congr 1
  omega

/-- The scale on which the interval of a number is counted. -/
def scaleOf (exponent weight : Int) : ℚ :=
  2 ^ (2 - exponent).toNat * 10 ^ (-weight).toNat

/-- The scale is positive. -/
theorem scaleOf_pos (exponent weight : Int) : 0 < scaleOf exponent weight := by
  unfold scaleOf
  positivity

/-- A unit of an interval is a quarter of the last place of its number. -/
theorem unit_eq (exponent weight : Int) :
    ((Nat.pow 2 (exponent - 2).toNat * Nat.pow 10 (-weight).toNat : Nat) : ℚ) =
      2 ^ (exponent - 2) * scaleOf exponent weight := by
  -- The two powers of two make up one.
  have power := zpow_mul_pow (by norm_num : (2 : ℚ) ≠ 0) (exponent - 2)
  rw [show -(exponent - 2) = 2 - exponent by ring] at power
  unfold scaleOf
  rw [← mul_assoc, power]
  simp only [Nat.pow_eq]
  push_cast
  rfl

/-- A place of an interval is a decimal place. -/
theorem place_eq (exponent weight : Int) :
    ((Nat.pow 10 weight.toNat * Nat.pow 2 (2 - exponent).toNat : Nat) : ℚ) =
      10 ^ weight * scaleOf exponent weight := by
  -- The two powers of ten make up one.
  have power := zpow_mul_pow (by norm_num : (10 : ℚ) ≠ 0) weight
  unfold scaleOf
  rw [mul_comm (_ ^ _ : ℚ) (_ ^ _ : ℚ), ← mul_assoc, power]
  simp only [Nat.pow_eq]
  push_cast
  rfl

/-- A count of places, on the scale of an interval. -/
theorem count_eq (significand : Nat) (exponent weight : Int) (count : Nat) :
    ((count * (RoundingInterval.around significand exponent weight).place : Nat) : ℚ) =
      count * 10 ^ weight * scaleOf exponent weight := by
  have place := place_eq exponent weight
  show ((count * (_ * _) : Nat) : ℚ) = _
  rw [Nat.cast_mul, place, mul_assoc]

/-- The number in the middle of an interval, on its scale. -/
theorem middle_eq (significand : Nat) (exponent weight : Int) :
    ((RoundingInterval.around significand exponent weight).middle : ℚ) =
      significand * 2 ^ exponent * scaleOf exponent weight := by
  -- The middle is counted in quarters of a step.
  have unit := unit_eq exponent weight
  have quarter : (2 : ℚ) ^ exponent = 4 * 2 ^ (exponent - 2) := by
    rw [zpow_sub₀ (by norm_num)]
    norm_num
    ring
  show ((4 * significand * (_ * _) : Nat) : ℚ) = _
  rw [Nat.cast_mul, unit, quarter]
  push_cast
  ring

variable (positive : 0 < significand)
include positive

/-- The low end of an interval, on its scale. -/
theorem low_eq (exponent weight : Int) :
    ((RoundingInterval.around significand exponent weight).low : ℚ) =
      lowEnd significand exponent * scaleOf exponent weight := by
  -- A quarter or two below the middle, counted in the same unit.
  have unit := unit_eq exponent weight
  have near : quartersBelow significand exponent ≤ 4 * significand := by
    unfold quartersBelow
    split <;> omega
  show (((4 * significand - quartersBelow significand exponent) * (_ * _) : Nat) : ℚ) = _
  rw [Nat.cast_mul, unit, Nat.cast_sub near, lowEnd]
  push_cast
  ring

omit positive in
/-- The high end of an interval, on its scale. -/
theorem high_eq (significand : Nat) (exponent weight : Int) :
    ((RoundingInterval.around significand exponent weight).high : ℚ) =
      highEnd significand exponent * scaleOf exponent weight := by
  -- Two quarters above the middle, counted in the same unit.
  have unit := unit_eq exponent weight
  show (((4 * significand + 2) * (_ * _) : Nat) : ℚ) = _
  rw [Nat.cast_mul, unit, highEnd]
  push_cast
  ring

/-- An interval holds the counts of places that round to its number. -/
theorem holds_iff (exponent weight : Int) (count : Nat) :
    (RoundingInterval.around significand exponent weight).holds count = true ↔
      RoundsTo significand exponent (count * 10 ^ weight) := by
  have scale := scaleOf_pos exponent weight
  have value := count_eq significand exponent weight count
  have low := low_eq positive exponent weight
  have high := high_eq significand exponent weight
  have closed : (RoundingInterval.around significand exponent weight).closed =
      (significand % 2 == 0) := rfl
  unfold RoundingInterval.holds RoundsTo
  generalize RoundingInterval.around significand exponent weight = interval at *
  dsimp only
  rw [closed]
  -- On the scale, ends and counts are natural numbers.
  by_cases even : significand % 2 = 0
  · simp only [even, beq_self_eq_true, if_true, Bool.and_eq_true, decide_eq_true_eq]
    rw [← Nat.cast_le (α := ℚ), ← Nat.cast_le (α := ℚ), low, high, value,
      mul_le_mul_iff_left₀ scale, mul_le_mul_iff_left₀ scale]
  · simp only [even, beq_iff_eq, if_false, Bool.and_eq_true, decide_eq_true_eq]
    rw [← Nat.cast_lt (α := ℚ), ← Nat.cast_lt (α := ℚ), low, high, value,
      mul_lt_mul_iff_left₀ scale, mul_lt_mul_iff_left₀ scale]

omit positive in
/-- The count below the middle of an interval, and the next one, lie around its number. -/
theorem middle_between (significand : Nat) (exponent weight : Int) {lower : Nat}
    (below : lower = (RoundingInterval.around significand exponent weight).middle /
      (RoundingInterval.around significand exponent weight).place) :
    lower * 10 ^ weight ≤ (significand * 2 ^ exponent : ℚ) ∧
      (significand * 2 ^ exponent : ℚ) < (lower + 1 : Nat) * 10 ^ weight := by
  -- Division leaves a rest smaller than the place.
  have scale := scaleOf_pos exponent weight
  have value := count_eq significand exponent weight
  have middle := middle_eq significand exponent weight
  have wide : 0 < (RoundingInterval.around significand exponent weight).place :=
    Nat.mul_pos (Nat.pow_pos (by decide)) (Nat.pow_pos (by decide))
  generalize RoundingInterval.around significand exponent weight = interval at *
  subst below
  constructor
  · rw [← mul_le_mul_iff_left₀ scale, ← value, ← middle, Nat.cast_le]
    exact Nat.div_mul_le_self _ _
  · rw [← mul_lt_mul_iff_left₀ scale, ← value, ← middle, Nat.cast_lt, Nat.add_mul, Nat.one_mul]
    exact Nat.lt_div_mul_add wide

/-- A count that an interval gives rounds to its number, and is not zero where one place is not. -/
theorem roundsTo_of_nearest {count : Nat} (reached : (10 : ℚ) ^ weight ≤ significand * 2 ^ exponent)
    (found : (RoundingInterval.around significand exponent weight).nearest? = some count) :
    RoundsTo significand exponent (count * 10 ^ weight) ∧ 0 < count := by
  have holds (count : Nat) := holds_iff positive exponent weight count
  have between := middle_between significand exponent weight rfl
  have power : (0 : ℚ) < 10 ^ weight := zpow_pos (by norm_num) _
  unfold RoundingInterval.nearest? at found
  generalize RoundingInterval.around significand exponent weight = interval at *
  generalize interval.middle / interval.place = lower at *
  -- One place is not above the number, so that there is one below it.
  have some_ : 0 < lower := by
    by_contra none_
    obtain rfl : lower = 0 := by omega
    norm_num at between
    linarith
  simp only at found
  split at found
  · rename_i inside inside'
    obtain ⟨rfl⟩ := found
    split
    · exact ⟨(holds _).mp inside, some_⟩
    · split
      · exact ⟨(holds _).mp inside', Nat.succ_pos lower⟩
      · split
        · exact ⟨(holds _).mp inside, some_⟩
        · exact ⟨(holds _).mp inside', Nat.succ_pos lower⟩
  · rename_i inside _
    obtain ⟨rfl⟩ := found
    exact ⟨(holds _).mp inside, some_⟩
  · rename_i _ inside'
    obtain ⟨rfl⟩ := found
    exact ⟨(holds _).mp inside', Nat.succ_pos lower⟩
  · cases found

omit positive in
/-- What lies between the ends of an interval rounds to its number, whether they do or not. -/
theorem roundsTo_of_inside {fraction : ℚ} (above : lowEnd significand exponent < fraction)
    (below : fraction < highEnd significand exponent) :
    RoundsTo significand exponent fraction := by
  unfold RoundsTo
  split
  · exact ⟨above.le, below.le⟩
  · exact ⟨above, below⟩

omit positive in
/-- Of two neighbouring fractions around a number, one rounds to it if their places are fine. -/
theorem roundsTo_of_fine {under place : ℚ} (bounded : significand < Nat.pow 2 53)
    (fine : place * 10 ^ 16 ≤ significand * 2 ^ exponent)
    (below : under ≤ significand * 2 ^ exponent)
    (above : significand * 2 ^ exponent < under + place) :
    RoundsTo significand exponent under ∨ RoundsTo significand exponent (under + place) := by
  have quarter : (2 : ℚ) ^ exponent = 4 * 2 ^ (exponent - 2) := by
    rw [zpow_sub₀ (by norm_num)]
    norm_num
    ring
  have positive : (0 : ℚ) < 2 ^ (exponent - 2) := zpow_pos (by norm_num) _
  have low : lowEnd significand exponent =
      (4 * significand - quartersBelow significand exponent) * 2 ^ (exponent - 2) := rfl
  have high : highEnd significand exponent = (4 * significand + 2) * 2 ^ (exponent - 2) := rfl
  rw [quarter] at fine below above
  generalize (2 : ℚ) ^ (exponent - 2) = unit at *
  by_cases half : quartersBelow significand exponent = 2
  · rw [half] at low
    -- One place is less than the interval, so that the two fractions are not both outside.
    have sized : (significand : ℚ) ≤ 9007199254740991 := by
      have : significand ≤ 9007199254740991 := Nat.le_of_lt_succ bounded
      exact_mod_cast this
    have narrow : place < 4 * unit := by nlinarith
    push_cast at low
    by_cases close : lowEnd significand exponent < under
    · exact Or.inl (roundsTo_of_inside close (by linarith))
    · exact Or.inr (roundsTo_of_inside (by linarith) (by linarith))
  · -- Above a power of two the interval is as wide as elsewhere, and the places are finer.
    have power : significand = 4503599627370496 := by
      unfold quartersBelow at half
      split at half
      · rename_i power
        simpa using (Bool.and_eq_true_iff.mp power).1
      · omega
    have quarters : (0 : ℚ) ≤ quartersBelow significand exponent := Nat.cast_nonneg _
    have sized : (significand : ℚ) = 4503599627370496 := by exact_mod_cast power
    have narrow : place < 2 * unit := by
      rw [sized] at fine
      linarith
    refine Or.inr (roundsTo_of_inside ?_ (by linarith))
    have under_ : (4 * significand - quartersBelow significand exponent) * unit ≤
        significand * (4 * unit) := by
      nlinarith
    linarith

/-- Where places are fine enough for sixteen digits behind the first, some count is near enough. -/
theorem exists_nearest (bounded : significand < Nat.pow 2 53)
    (fine : (10 : ℚ) ^ weight * 10 ^ 16 ≤ significand * 2 ^ exponent) :
    ∃ count, (RoundingInterval.around significand exponent weight).nearest? = some count := by
  -- Of the two decimals on either side of the number, one rounds to it when the place is fine
  -- enough.
  have holds (count : Nat) := holds_iff positive exponent weight count
  obtain ⟨below, above⟩ := middle_between significand exponent weight rfl
  unfold RoundingInterval.nearest?
  generalize RoundingInterval.around significand exponent weight = interval at *
  generalize interval.middle / interval.place = lower at *
  rw [Nat.cast_succ, add_mul, one_mul] at above
  have near := roundsTo_of_fine bounded fine below above
  rw [← add_one_mul, ← Nat.cast_succ, ← holds, ← holds] at near
  dsimp only
  rcases near with inside | inside
  · rw [inside]
    cases interval.holds (lower + 1) <;> exact ⟨_, rfl⟩
  · rw [inside]
    cases interval.holds lower <;> exact ⟨_, rfl⟩

end Search

section Shortest

variable {significand : Nat} {exponent : Int}

/-- The decimal exponent of a positive fraction is that of a power of ten that is not above it. -/
theorem decimalExponent_le {numerator denominator : Nat} (positive : 0 < numerator)
    (divisor : 0 < denominator) :
    (10 : ℚ) ^ decimalExponent numerator denominator * denominator ≤ numerator := by
  unfold decimalExponent
  split
  · rename_i whole
    -- The whole part has at least one digit, and is not below the power with as many digits.
    have some_ : 0 < numerator / denominator := Nat.div_pos whole divisor
    obtain ⟨count, counted⟩ : ∃ count,
        (Nat.toDigits 10 (numerator / denominator)).length = count + 1 :=
      ⟨_, (Nat.succ_pred_eq_of_pos Nat.length_toDigits_pos).symm⟩
    have reached : 10 ^ count ≤ numerator / denominator := by
      cases count with
      | zero => exact some_
      | succ count =>
        by_contra less
        have short := (Nat.length_toDigits_le_iff (by decide) (Nat.succ_pos count)).mpr
          (Nat.lt_of_not_le less)
        omega
    have scaled : 10 ^ count * denominator ≤ numerator :=
      (Nat.mul_le_mul_right _ reached).trans (Nat.div_mul_le_self _ _)
    rw [counted, show ((count + 1 : Nat) : Int) - 1 = (count : Int) by omega, zpow_natCast]
    exact_mod_cast scaled
  · rename_i part
    have digits : (Nat.toDigits 10 ((denominator - 1) / numerator)).length ≤ _ := Nat.le_refl _
    have longer := (Nat.length_toDigits_le_iff (by decide) Nat.length_toDigits_pos).mp digits
    generalize (Nat.toDigits 10 ((denominator - 1) / numerator)).length = count at *
    have scaled : denominator ≤ numerator * 10 ^ count := by
      have := (Nat.div_lt_iff_lt_mul positive).mp longer
      rw [Nat.mul_comm] at this
      omega
    have scaled : (denominator : ℚ) ≤ numerator * 10 ^ count := by exact_mod_cast scaled
    rw [zpow_neg, zpow_natCast, inv_mul_le_iff₀ (by positivity), mul_comm]
    exact scaled

variable (canonical : CanonicalParts significand exponent) (positive : 0 < significand)
include canonical positive

/-- The search ends with a decimal that rounds to the number, before the attempts are used up. -/
theorem roundsTo_shortestFrom {leading : Int}
    (reached : (10 : ℚ) ^ leading ≤ significand * 2 ^ exponent) {attempts count : Nat}
    (left : attempts + count = 18) (some_ : 0 < attempts) (started : 0 < count) :
    RoundsTo significand exponent ((shortestFrom significand exponent leading attempts count).1 *
        10 ^ (shortestFrom significand exponent leading attempts count).2) ∧
      0 < (shortestFrom significand exponent leading attempts count).1 := by
  induction attempts generalizing count with
  | zero => omega
  | succ attempts ih =>
    unfold shortestFrom
    dsimp only
    cases found : (RoundingInterval.around significand exponent (leading - count + 1)).nearest? with
    | some digits =>
      refine roundsTo_of_nearest positive (le_trans ?_ reached) found
      have fewer : leading - count + 1 ≤ leading := by omega
      exact zpow_le_zpow_right₀ (by norm_num) fewer
    | none =>
      refine ih (by omega) ?_ (Nat.succ_pos count)
      -- The last attempt has seventeen digits, which are enough.
      by_contra last
      have fine : (10 : ℚ) ^ (leading - count + 1) * 10 ^ 16 ≤ significand * 2 ^ exponent := by
        rw [← zpow_natCast (10 : ℚ) 16, ← zpow_add₀ (by norm_num)]
        rwa [show leading - count + 1 + (16 : Nat) = leading by omega]
      obtain ⟨digits, given⟩ := exists_nearest positive canonical.1 fine
      rw [found] at given
      cases given

/-- The shortest decimal of a positive number rounds to the number. -/
theorem roundsTo_shortest :
    RoundsTo significand exponent
        ((shortest significand exponent).1 * 10 ^ (shortest significand exponent).2) ∧
      0 < (shortest significand exponent).1 := by
  -- The search starts at a place that the number reaches, and ends at one that is fine enough.
  refine roundsTo_shortestFrom canonical positive ?_ rfl (by decide) (by decide)
  have divisor : 0 < 1 * Nat.pow 2 (-exponent).toNat :=
    Nat.mul_pos (by decide) (Nat.pow_pos (by decide))
  have numerator : 0 < significand * Nat.pow 2 (-(-exponent)).toNat :=
    Nat.mul_pos positive (Nat.pow_pos (by decide))
  have scaled := decimalExponent_le numerator divisor
  have power := zpow_mul_pow (by norm_num : (2 : ℚ) ≠ 0) exponent
  simp only [Nat.pow_eq, neg_neg, one_mul] at scaled divisor ⊢
  push_cast at scaled
  rw [← power, ← mul_assoc] at scaled
  exact le_of_mul_le_mul_right scaled (by positivity)

/-- Positive numbers with equal shortest decimals are the same. -/
theorem parts_of_shortest {significand' : Nat} {exponent' : Int}
    (canonical' : CanonicalParts significand' exponent') (positive' : 0 < significand')
    (same : ((shortest significand exponent).1 * 10 ^ (shortest significand exponent).2 : ℚ) =
      (shortest significand' exponent').1 * 10 ^ (shortest significand' exponent').2) :
    significand = significand' ∧ exponent = exponent' :=
  parts_of_roundsTo canonical canonical' (same ▸ (roundsTo_shortest canonical positive).1)
    (roundsTo_shortest canonical' positive').1

end Shortest

end ContentQuery.Binary64
