import ContentQuery.Binary64.Text
import ContentQuery.Proofs.ShortestDecimal
import Mathlib.Data.List.TakeWhile

/-! Decimal notation of floating-point numbers: it tells any two finite numbers apart. -/

namespace ContentQuery.Binary64

/-- The power of ten that is written behind a mantissa, if there is one. -/
def writtenExponent : List Char → Int
  | 'e' :: '-' :: digits => -(Nat.ofDigitChars 10 digits 0 : Int)
  | 'e' :: '+' :: digits => Nat.ofDigitChars 10 digits 0
  | _ => 0

/-- What digits stand for when the last of them has a weight. -/
def weighed (digits : List Char) (weight : Int) : ℚ :=
  Nat.ofDigitChars 10 digits 0 * 10 ^ weight

/-- The fraction that the notation of a magnitude stands for. -/
def writtenValue (chars : List Char) : ℚ :=
  let mantissa := chars.takeWhile (· != 'e')
  let behind := (mantissa.dropWhile (· != '.')).drop 1
  weighed (mantissa.takeWhile (· != '.') ++ behind)
    (writtenExponent (chars.dropWhile (· != 'e')) - behind.length)

/-- Zeros in front of digits do not count. -/
theorem weighed_zeros_append (count : Nat) (digits : List Char) (weight : Int) :
    weighed (List.replicate count '0' ++ digits) weight = weighed digits weight := by
  unfold weighed
  rw [Nat.ofDigitChars_append, Nat.ofDigitChars_replicate_zero, Nat.mul_zero]

/-- Zeros behind digits move the weight. -/
theorem weighed_append_zeros (digits : List Char) (count : Nat) (weight : Int) :
    weighed (digits ++ List.replicate count '0') weight = weighed digits (weight + count) := by
  -- Each zero behind the digits multiplies by ten.
  unfold weighed
  rw [Nat.ofDigitChars_append, Nat.ofDigitChars_replicate_zero, zpow_add₀ (by norm_num),
    zpow_natCast]
  push_cast
  ring

/-- A number of zeros are digits. -/
theorem isDigit_zeros (count : Nat) : ∀ c ∈ List.replicate count '0', c.isDigit = true := by
  intro c member
  rw [List.eq_of_mem_replicate member]
  decide

section Digits

variable {digits behind exponent : List Char} (each : ∀ c ∈ digits, c.isDigit = true)
include each

/-- Digits hold no character of another kind. -/
theorem ne_of_digits {mark : Char} (other : mark.isDigit = false) :
    ∀ c ∈ digits, (c != mark) = true := by
  -- The mark is no digit.
  intro c member
  have digit := each c member
  by_contra same
  obtain rfl : c = mark := by simpa using same
  rw [other] at digit
  cases digit

section Exponent

variable (marked : exponent.takeWhile (· != 'e') = [])
include marked

omit each in
/-- A mantissa ends where its exponent begins. -/
theorem takeWhile_mantissa {mantissa : List Char} (plain : ∀ c ∈ mantissa, (c != 'e') = true) :
    (mantissa ++ exponent).takeWhile (· != 'e') = mantissa ∧
      (mantissa ++ exponent).dropWhile (· != 'e') = exponent := by
  -- The power begins at the first mark, and the mantissa has none.
  have whole := List.takeWhile_append_dropWhile (p := (· != 'e')) (l := exponent)
  rw [marked, List.nil_append] at whole
  rw [List.takeWhile_append_of_pos plain, List.dropWhile_append_of_pos plain, marked, whole,
    List.append_nil]
  exact ⟨rfl, rfl⟩

/-- Digits without a point are weighed by their exponent. -/
theorem writtenValue_whole :
    writtenValue (digits ++ exponent) = weighed digits (writtenExponent exponent) := by
  -- Without a point all the digits stand in front of it.
  obtain ⟨mantissa, power⟩ := takeWhile_mantissa marked (ne_of_digits each (by decide))
  have front : ∀ c ∈ digits, (c != '.') = true := ne_of_digits each (by decide)
  simp only [writtenValue, mantissa, power]
  rw [List.takeWhile_eq_self_iff.mpr front, List.dropWhile_eq_nil_iff.mpr front]
  simp

/-- Digits with a point among them are weighed by how many stand behind it, and the exponent. -/
theorem writtenValue_point (each' : ∀ c ∈ behind, c.isDigit = true) :
    writtenValue (digits ++ '.' :: behind ++ exponent) =
      weighed (digits ++ behind) (writtenExponent exponent - behind.length) := by
  -- The digits behind the point take as much off the power as there are of them.
  have plain : ∀ c ∈ digits ++ '.' :: behind, (c != 'e') = true := by
    rw [List.forall_mem_append, List.forall_mem_cons]
    exact ⟨ne_of_digits each (by decide), by decide, ne_of_digits each' (by decide)⟩
  obtain ⟨mantissa, power⟩ := takeWhile_mantissa marked plain
  have front : ∀ c ∈ digits, (c != '.') = true := ne_of_digits each (by decide)
  simp only [writtenValue, mantissa, power]
  rw [List.takeWhile_append_of_pos front, List.dropWhile_append_of_pos front]
  simp

end Exponent

/-- Where no exponent follows, the digits behind the point are their weight. -/
theorem writtenValue_pointed (each' : ∀ c ∈ behind, c.isDigit = true) :
    writtenValue (digits ++ '.' :: behind) = weighed (digits ++ behind) (-behind.length) := by
  have read := writtenValue_point each List.takeWhile_nil each'
  rw [List.append_nil] at read
  exact read.trans (congrArg (weighed _) (Int.zero_sub _))

/-- Positional notation stands for its digits, weighed by where the point is. -/
theorem writtenValue_pointAfter (whole : Int) :
    writtenValue (pointAfter digits whole) = weighed digits (whole - digits.length) := by
  -- Three places for the point: in front of all digits, behind all of them, and between two.
  have front : ∀ c ∈ digits.take whole.toNat, c.isDigit = true :=
    fun c member => each c (List.mem_of_mem_take member)
  have back : ∀ c ∈ digits.drop whole.toNat, c.isDigit = true :=
    fun c member => each c (List.mem_of_mem_drop member)
  unfold pointAfter
  dsimp only
  split
  · -- All digits stand behind the point, with zeros between them.
    have filled := List.forall_mem_append.mpr ⟨isDigit_zeros (-whole).toNat, each⟩
    have read := writtenValue_pointed (isDigit_zeros 1) filled
    rw [weighed_zeros_append, weighed_zeros_append] at read
    refine read.trans (congrArg (weighed digits) ?_)
    rw [List.length_append, List.length_replicate]
    omega
  · by_cases short : digits.length ≤ whole.toNat
    · -- All digits stand in front of the point, with zeros filled up.
      have filled := List.forall_mem_append.mpr ⟨each, isDigit_zeros (whole.toNat - digits.length)⟩
      have read := writtenValue_pointed filled (isDigit_zeros 1)
      rw [weighed_append_zeros, weighed_append_zeros] at read
      rw [List.take_of_length_le short, List.drop_of_length_le short]
      refine read.trans (congrArg (weighed digits) ?_)
      rw [List.length_replicate]
      omega
    · -- The point stands between two of the digits.
      have some_ : (digits.drop whole.toNat).isEmpty = false := by
        rw [List.isEmpty_eq_false_iff, Ne, List.drop_eq_nil_iff]
        exact short
      have read := writtenValue_pointed front back
      rw [List.take_append_drop] at read
      rw [some_, List.length_take_of_le (by omega), Nat.sub_self]
      simp only [List.replicate_zero, List.append_nil, Bool.false_eq_true, if_false]
      refine read.trans (congrArg (weighed digits) ?_)
      rw [List.length_drop]
      omega

omit each in
/-- The exponent that is written is read, whatever its sign and its zero in front. -/
theorem writtenExponent_eq (leading : Int) :
    let power := Nat.toDigits 10 leading.natAbs
    writtenExponent ('e' :: (if leading < 0 then '-' else '+') ::
      (if power.length < 2 then '0' :: power else power)) = leading := by
  intro power
  have read : Nat.ofDigitChars 10 (if power.length < 2 then '0' :: power else power) 0 =
      leading.natAbs := by
    split
    · rw [Nat.ofDigitChars_cons]
      exact Nat.ofDigitChars_ten_toDigits
    · exact Nat.ofDigitChars_ten_toDigits
  split
  · show -((Nat.ofDigitChars 10 _ 0 : Nat) : Int) = leading
    omega
  · show ((Nat.ofDigitChars 10 _ 0 : Nat) : Int) = leading
    omega

/-- Notation with an exponent stands for its digits, weighed from the first of them. -/
theorem writtenValue_withExponent (some_ : digits ≠ []) (leading : Int) :
    writtenValue (withExponent digits leading) = weighed digits (leading + 1 - digits.length) := by
  -- A single digit is written without a point.
  have power := writtenExponent_eq leading
  unfold withExponent
  dsimp only at power ⊢
  split
  · -- The point stands behind the first digit.
    rename_i first second rest
    have front : ∀ c ∈ [first], c.isDigit = true := fun c member =>
      each c (List.mem_cons.mpr (Or.inl (List.mem_singleton.mp member)))
    have back : ∀ c ∈ second :: rest, c.isDigit = true := fun c member =>
      each c (List.mem_cons_of_mem first member)
    refine (writtenValue_point front rfl back).trans (congrArg (weighed _) ?_)
    simp only [power, List.length_cons]
    omega
  · rename_i many
    refine (writtenValue_whole each rfl).trans (congrArg (weighed _) ?_)
    have one : digits.length = 1 := by
      match digits, some_, many with
      | [_], _, _ => rfl
      | first :: second :: rest, _, many => exact (many first second rest rfl).elim
    rw [power]
    omega

end Digits

section Magnitude

variable {significand : Nat} {exponent : Int}

/-- Digits without the zeros at their end, and how many of these there are. -/
theorem exists_zeros (all : List Char) :
    ∃ count, all = (all.reverse.dropWhile (· == '0')).reverse ++ List.replicate count '0' := by
  -- The zeros are those at the end, which are the first of the reversed list.
  refine ⟨(all.reverse.takeWhile (· == '0')).length, ?_⟩
  have zeros : all.reverse.takeWhile (· == '0') =
      List.replicate (all.reverse.takeWhile (· == '0')).length '0' :=
    List.eq_replicate_iff.mpr ⟨rfl, fun c member => by simpa using List.mem_takeWhile_imp member⟩
  have whole := congrArg List.reverse
    (List.takeWhile_append_dropWhile (p := (· == '0')) (l := all.reverse))
  rw [List.reverse_append, List.reverse_reverse, zeros, List.reverse_replicate] at whole
  exact whole.symm

/-- A positive magnitude is written in digits that stand for its shortest decimal. -/
theorem exists_digits (canonical : CanonicalParts significand exponent)
    (positive : 0 < significand) :
    ∃ digits leading, digits ≠ [] ∧ (∀ c ∈ digits, c.isDigit = true) ∧
      magnitudeChars significand exponent = (if isPositional leading then
        pointAfter digits (leading + 1) else withExponent digits leading) ∧
      weighed digits (leading + 1 - digits.length) =
        (shortest significand exponent).1 * 10 ^ (shortest significand exponent).2 := by
  -- The digits are those of the shortest decimal without the zeros at the end, which are counted
  -- into the power.
  have some_ := (roundsTo_shortest canonical positive).2
  have nonzero : (significand == 0) = false := by simpa using Nat.ne_of_gt positive
  unfold magnitudeChars
  rw [nonzero, if_neg Bool.false_ne_true]
  generalize shortest significand exponent = decimal at *
  obtain ⟨value, weight⟩ := decimal
  dsimp only at some_ ⊢
  obtain ⟨count, whole⟩ := exists_zeros (Nat.toDigits 10 value)
  have each : ∀ c ∈ Nat.toDigits 10 value, c.isDigit = true := fun c member =>
    Nat.isDigit_of_mem_toDigits (by decide) (by decide) member
  have counted : weighed (Nat.toDigits 10 value) weight = value * 10 ^ weight := by
    unfold weighed
    rw [Nat.ofDigitChars_ten_toDigits]
  refine ⟨_, _, ?_, ?_, rfl, ?_⟩
  · -- Digits of zeros only would be those of zero.
    intro nothing
    rw [nothing, List.nil_append] at whole
    have zero := congrArg (Nat.ofDigitChars 10 · 0) whole
    simp only [Nat.ofDigitChars_ten_toDigits, Nat.ofDigitChars_replicate_zero] at zero
    omega
  · rw [whole] at each
    exact (List.forall_mem_append.mp each).1
  · rw [← counted]
    generalize ((Nat.toDigits 10 value).reverse.dropWhile (· == '0')).reverse = digits at *
    rw [whole, weighed_append_zeros, List.length_append, List.length_replicate]
    congr 1
    omega

/-- The notation of a positive magnitude stands for its shortest decimal. -/
theorem writtenValue_magnitude (canonical : CanonicalParts significand exponent)
    (positive : 0 < significand) : writtenValue (magnitudeChars significand exponent) =
      (shortest significand exponent).1 * 10 ^ (shortest significand exponent).2 := by
  -- Both notations are worth the same digits at the same weight.
  obtain ⟨digits, leading, nonempty, each, written, value⟩ := exists_digits canonical positive
  rw [written, ← value]
  split
  · exact writtenValue_pointAfter each _
  · exact writtenValue_withExponent each nonempty _

/-- The notation of no magnitude stands for zero. -/
theorem writtenValue_zero (exponent : Int) : writtenValue (magnitudeChars 0 exponent) = 0 := by
  refine (writtenValue_pointed (isDigit_zeros 1) (isDigit_zeros 1)).trans ?_
  unfold weighed
  norm_num [Nat.ofDigitChars]

/-- Magnitudes with one notation are the same. -/
theorem parts_of_magnitudeChars {significand' : Nat} {exponent' : Int}
    (canonical : CanonicalParts significand exponent)
    (canonical' : CanonicalParts significand' exponent')
    (same : magnitudeChars significand exponent = magnitudeChars significand' exponent') :
    significand = significand' ∧ exponent = exponent' := by
  -- What is written has a value, and the shortest decimal of a number rounds back to that number
  -- alone.
  have value {significand : Nat} {exponent : Int} (canonical : CanonicalParts significand exponent)
      (positive : 0 < significand) : 0 < writtenValue (magnitudeChars significand exponent) := by
    rw [writtenValue_magnitude canonical positive]
    have some_ := (roundsTo_shortest canonical positive).2
    positivity
  rcases Nat.eq_zero_or_pos significand with rfl | positive
  · rcases Nat.eq_zero_or_pos significand' with rfl | positive'
    · -- Zero has the least exponent.
      obtain ⟨-, -, -, least⟩ := canonical
      obtain ⟨-, -, -, least'⟩ := canonical'
      have none_ : ¬ Nat.pow 2 52 ≤ 0 := by decide
      exact ⟨rfl, (least.resolve_left none_).trans (least'.resolve_left none_).symm⟩
    · have above := value canonical' positive'
      rw [← same, writtenValue_zero] at above
      exact absurd above (lt_irrefl 0)
  · rcases Nat.eq_zero_or_pos significand' with rfl | positive'
    · have above := value canonical positive
      rw [same, writtenValue_zero] at above
      exact absurd above (lt_irrefl 0)
    · refine parts_of_shortest canonical positive canonical' positive' ?_
      rw [← writtenValue_magnitude canonical positive, same,
        writtenValue_magnitude canonical' positive']

/-- A magnitude starts with a digit. -/
theorem exists_head (canonical : CanonicalParts significand exponent) :
    ∃ first rest, magnitudeChars significand exponent = first :: rest ∧ first.isDigit = true := by
  -- A zero stands in front of the point where nothing else does.
  rcases Nat.eq_zero_or_pos significand with rfl | positive
  · exact ⟨'0', ['.', '0'], rfl, by decide⟩
  · obtain ⟨digits, leading, nonempty, each, written, -⟩ := exists_digits canonical positive
    rw [written]
    obtain ⟨first, rest, rfl⟩ := List.exists_cons_of_ne_nil nonempty
    have digit : first.isDigit = true := each first List.mem_cons_self
    split
    · unfold pointAfter
      dsimp only
      split
      · exact ⟨'0', _, rfl, by decide⟩
      · rename_i whole
        obtain ⟨count, counted⟩ : ∃ count, (leading + 1).toNat = count + 1 :=
          ⟨(leading + 1).toNat - 1, by omega⟩
        rw [counted]
        exact ⟨first, _, rfl, digit⟩
    · unfold withExponent
      cases rest <;> exact ⟨first, _, rfl, digit⟩

/-- A magnitude holds a point or an exponent. -/
theorem exists_mark (canonical : CanonicalParts significand exponent) :
    '.' ∈ magnitudeChars significand exponent ∨ 'e' ∈ magnitudeChars significand exponent := by
  -- The one notation has a point, and the other a power.
  rcases Nat.eq_zero_or_pos significand with rfl | positive
  · exact Or.inl (List.mem_cons_of_mem '0' List.mem_cons_self)
  · obtain ⟨digits, leading, -, -, written, -⟩ := exists_digits canonical positive
    rw [written]
    split
    · unfold pointAfter
      dsimp only
      split <;> exact Or.inl (by simp)
    · unfold withExponent
      exact Or.inr (by simp)

end Magnitude

/-- Finite numbers with one text are the same. -/
theorem eq_of_text {number number' : Binary64} (finite : number.isFinite = true)
    (finite' : number'.isFinite = true) (same : number.text = number'.text) : number = number' := by
  cases number with
  | nan | infinite => cases finite
  | finite negative significand exponent canonical =>
    cases number' with
    | nan | infinite => cases finite'
    | finite negative' significand' exponent' canonical' =>
      obtain ⟨first, rest, written, digit⟩ := exists_head canonical
      obtain ⟨first', rest', written', digit'⟩ := exists_head canonical'
      have chars := congrArg String.toList same
      simp only [text, String.toList_ofList] at chars
      have magnitude : negative = negative' ∧
          magnitudeChars significand exponent = magnitudeChars significand' exponent' := by
        rw [written, written'] at chars ⊢
        cases negative <;> cases negative' <;>
          simp only [Bool.false_eq_true, if_true, if_false, List.cons.injEq] at chars ⊢
        · exact ⟨trivial, chars⟩
        -- A sign is no digit.
        · rw [chars.1] at digit
          cases digit
        · rw [← chars.1] at digit'
          cases digit'
        · exact ⟨trivial, chars.2⟩
      obtain ⟨rfl, agreed⟩ := magnitude
      obtain ⟨rfl, rfl⟩ := parts_of_magnitudeChars canonical canonical' agreed
      rfl

end ContentQuery.Binary64
