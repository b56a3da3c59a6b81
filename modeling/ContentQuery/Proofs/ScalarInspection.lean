import ContentQuery.Proofs.Inspection

/-! Telling forms of scalars: dates, times and members of enumerations are told apart by them. -/

namespace ContentQuery

open Value (ToldApart Stops eq_of_joined endsNumeral_cons)

namespace Text

/-- The digits of a natural number. -/
def numeral (number : Nat) : List Char :=
  (toString number).toList

/-- Natural numbers with commas between them. -/
def listed (numbers : List Nat) : List Char :=
  [',', ' '].intercalate (numbers.map numeral)

/-- A mark ends what stands before it and holds none. -/
theorem mark_ends {mark : Char} (rest : List Char) (c : Char)
    (head : (mark :: rest).head? = some c) : (c != mark) = false := by
  obtain rfl := Option.some.inj head
  exact bne_self_eq_false mark

/-- Integers are told from one another, whatever follows that continues no number. -/
theorem eq_of_integer {number number' : Int} {rest rest' : List Char} (ends : EndsNumeral rest)
    (ends' : EndsNumeral rest')
    (same : (toString number).toList ++ rest = (toString number').toList ++ rest') :
    number = number' ∧ rest = rest' := by
  have each (count : Int) := fun c member => (numeral_integer count c member).1
  obtain ⟨agreed, rfl⟩ := eq_of_run (each number) (each number') ends ends' same
  exact ⟨Int.repr_injective (String.toList_injective agreed), rfl⟩

/-- A natural number is told from every other one. -/
theorem toldApart_numeral (number : Nat) : ToldApart (fun _ => True) numeral number := by
  -- A number ends where no character of a numeral follows.
  intro number' rest rest' _ ends ends' same
  have written : (toString (number : Int)).toList ++ rest =
      (toString (number' : Int)).toList ++ rest' := same
  obtain ⟨agreed, rfl⟩ := eq_of_integer ends ends' written
  exact ⟨Int.ofNat.inj agreed, rfl⟩

/-- A natural number starts with a character of numbers. -/
theorem exists_numeral (number : Nat) :
    ∃ first rest, numeral number = first :: rest ∧ Groq.isNumeralChar first = true := by
  obtain ⟨first, rest, written⟩ := List.exists_cons_of_ne_nil (integer_ne_nil number)
  have digit := (numeral_integer number first (written ▸ List.mem_cons_self)).1
  exact ⟨first, rest, written, digit⟩

/-- No number is read from characters that neither are one nor add one to a list. -/
theorem stops_numerals {rest : List Char} (ends : EndsNumeral rest)
    (apart : ∀ behind, rest = ',' :: ' ' :: behind → EndsNumeral behind) :
    Stops (fun _ => True) numeral rest := by
  -- A number begins with a digit, and neither what follows nor what stands behind a separator does.
  refine ⟨ends, fun number behind _ same => ?_, fun number behind _ same => ?_⟩ <;>
    obtain ⟨first, others, written, digit⟩ := exists_numeral number <;> rw [written] at same
  · have strange := ends first (same ▸ rfl)
    exact Bool.false_ne_true (strange.symm.trans digit)
  · have strange := apart _ same.symm first rfl
    exact Bool.false_ne_true (strange.symm.trans digit)

/-- Lists of natural numbers are told apart where no other number can follow. -/
theorem eq_of_listed {numbers numbers' : List Nat} {rest rest' : List Char}
    (stops : Stops (fun _ => True) numeral rest) (stops' : Stops (fun _ => True) numeral rest')
    (same : listed numbers ++ rest = listed numbers' ++ rest') :
    numbers = numbers' ∧ rest = rest' :=
  eq_of_joined stops stops' (fun number _ => toldApart_numeral number) (fun _ _ => trivial)
    (fun _ _ => trivial) same

end Text

namespace Clock

/-- The numbers that are listed for a time of day: zeros at the end are left out. -/
def numbers (clock : Clock) : List Nat :=
  if clock.microsecond ≠ 0 then [clock.hour, clock.minute, clock.second, clock.microsecond]
  else if clock.second ≠ 0 then [clock.hour, clock.minute, clock.second]
  else [clock.hour, clock.minute]

/-- A time of day is shown as its numbers. -/
theorem toList_inspectParts (clock : Clock) :
    clock.inspectParts.toList = Text.listed clock.numbers := by
  -- The clock leaves out the microseconds when there are none, and then the seconds.
  have joined : clock.inspectParts = ", ".intercalate (clock.numbers.map toString) := by
    simp only [inspectParts, numbers, bne_iff_ne]
    split
    · rfl
    · split <;> rfl
  rw [joined, String.toList_intercalate, List.map_map]
  rfl

/-- The hour is listed first. -/
theorem numbers_eq (clock : Clock) : ∃ others, clock.numbers = clock.hour :: others := by
  unfold numbers
  split
  · exact ⟨_, rfl⟩
  · split <;> exact ⟨_, rfl⟩

/-- Each number is listed in its place, and those that are left out are zeros. -/
theorem getD_numbers (clock : Clock) :
    clock.numbers.getD 0 0 = clock.hour ∧ clock.numbers.getD 1 0 = clock.minute ∧
      clock.numbers.getD 2 0 = clock.second ∧ clock.numbers.getD 3 0 = clock.microsecond := by
  -- What is left out is zero.
  unfold numbers
  by_cases entire : clock.microsecond = 0
  · by_cases whole : clock.second = 0
    · simp [entire, whole]
    · simp [entire, whole]
  · simp [entire]

/-- The numbers that are listed tell a time of day. -/
theorem eq_of_numbers {clock clock' : Clock} (same : clock.numbers = clock'.numbers) :
    clock = clock' := by
  -- A part that is not among the numbers is zero in both.
  obtain ⟨hour, minute, second, microsecond⟩ := clock.getD_numbers
  obtain ⟨hour', minute', second', microsecond'⟩ := clock'.getD_numbers
  rw [same] at hour minute second microsecond
  cases clock
  cases clock'
  cases hour.symm.trans hour'
  cases minute.symm.trans minute'
  cases second.symm.trans second'
  cases microsecond.symm.trans microsecond'
  rfl

end Clock

namespace Offset

/-- The names of the parts of a duration, and the microseconds that each of them stands for. -/
def units : List (String × Int) :=
  [("days", 86400000000), ("seconds", 1000000), ("microseconds", 1)]

/-- The parts of a duration with their names: parts that are zero are left out. -/
def parts (microseconds : Int) : List (String × Int) :=
  let rest := microseconds % 86400000000
  [("days", microseconds / 86400000000), ("seconds", rest / 1000000),
    ("microseconds", rest % 1000000)].filter (·.2 ≠ 0)

/-- The microseconds that parts add up to. -/
def total (parts : List (String × Int)) : Int :=
  (parts.map fun part => ((units.lookup part.1).getD 0) * part.2).sum

/-- The parts of a duration add up to it. -/
theorem total_parts (microseconds : Int) : total (parts microseconds) = microseconds := by
  have kept (name : String) (value : Int) (others : List (String × Int)) :
      total (((name, value) :: others).filter (·.2 ≠ 0)) =
        ((units.lookup name).getD 0) * value + total (others.filter (·.2 ≠ 0)) := by
    by_cases zero : value = 0 <;> simp [total, zero]
  -- A part that is left out counts nothing.
  unfold parts
  simp only [kept]
  show 86400000000 * _ + (1000000 * _ + (1 * _ + 0)) = _
  omega

/-- A part of a duration as it is listed. -/
def writtenPart (part : String × Int) : String :=
  part.1 ++ "=" ++ toString part.2

/-- A duration is shown as its parts, or as a zero where it has none. -/
theorem inspectDuration_eq (microseconds : Int) : inspectDuration microseconds =
    "datetime.timedelta(" ++ (if ((parts microseconds).map writtenPart).isEmpty then "0"
      else ", ".intercalate ((parts microseconds).map writtenPart)) ++ ")" := by
  -- Days, seconds and microseconds are named where they are not zero, in this order.
  have kept (name : String) (value : Int) :
      (if value == 0 then [] else [name ++ "=" ++ toString value]) =
        ([(name, value)].filter (·.2 ≠ 0)).map writtenPart := by
    by_cases zero : value = 0 <;> simp [zero, writtenPart]
  -- The seconds and the microseconds are those of a day, which are never negative.
  let second := microseconds.fmod 86400000000
  have written : ((if microseconds.fdiv 86400000000 == 0 then []
        else ["days" ++ "=" ++ toString (microseconds.fdiv 86400000000)]) ++
      (if second / 1000000 == 0 then [] else ["seconds" ++ "=" ++ toString (second / 1000000)]) ++
      (if second % 1000000 == 0 then []
        else ["microseconds" ++ "=" ++ toString (second % 1000000)])) =
      (parts microseconds).map writtenPart := by
    rw [kept, kept, kept, ← List.map_append, ← List.map_append, ← List.filter_append,
      ← List.filter_append, Int.fdiv_eq_ediv_of_nonneg _ (by decide)]
    simp only [second, Int.fmod_eq_emod_of_nonneg _ (show (0 : Int) ≤ 86400000000 by decide)]
    rfl
  exact congrArg (fun listed : List String => "datetime.timedelta(" ++
    (if listed.isEmpty then "0" else ", ".intercalate listed) ++ ")") written

/-- Each part of a duration has the name of a unit. -/
theorem name_of_mem_parts {microseconds : Int} :
    ∀ part ∈ parts microseconds, part.1 ∈ units.map Prod.fst := by
  intro part member
  have among := List.mem_of_mem_filter member
  simp only [List.mem_cons, List.not_mem_nil, or_false] at among
  rcases among with rfl | rfl | rfl <;> simp [units]

/-- The name of a unit holds no equals sign, and it does not start with a bracket. -/
theorem unit_plain {name : String} (unit : name ∈ units.map Prod.fst) :
    (∀ c ∈ name.toList, (c != '=') = true) ∧
      ∀ behind rest, name.toList ++ '=' :: behind ≠ ')' :: rest := by
  -- There are three units, and none begins with the bracket.
  have each : name = "days" ∨ name = "seconds" ∨ name = "microseconds" := by
    simpa [units] using unit
  rcases each with rfl | rfl | rfl <;> refine ⟨by simp, fun behind rest same => ?_⟩ <;>
    exact absurd (List.cons.inj same).1 (by decide)

/-- A part of a duration is told from every other one. -/
theorem toldApart_part {part : String × Int} (unit : part.1 ∈ units.map Prod.fst) :
    ToldApart (fun part => part.1 ∈ units.map Prod.fst) (fun part => (writtenPart part).toList)
      part := by
  intro part' rest rest' unit' ends ends' same
  obtain ⟨name, value⟩ := part
  obtain ⟨name', value'⟩ := part'
  have spelled (name : String) (value : Int) (rest : List Char) :
      (writtenPart (name, value)).toList ++ rest =
        name.toList ++ '=' :: ((toString value).toList ++ rest) := by
    simp only [writtenPart, String.toList_append, List.append_assoc]
    rfl
  rw [spelled, spelled] at same
  -- Names end at the equals sign, and the number behind it where the part does.
  obtain ⟨named, behind⟩ := Text.eq_of_run (unit_plain unit).1 (unit_plain unit').1
    (Text.mark_ends _) (Text.mark_ends _) same
  obtain rfl := String.toList_injective named
  obtain ⟨rfl, rfl⟩ := Text.eq_of_integer ends ends' (List.cons.inj behind).2
  exact ⟨rfl, rfl⟩

/-- No part of a duration is read from a closing bracket. -/
theorem stops_parts (rest : List Char) :
    Stops (fun part : String × Int => part.1 ∈ units.map Prod.fst)
      (fun part : String × Int => (writtenPart part).toList) (')' :: rest) where
  ends := endsNumeral_cons (by decide) rest
  first part behind unit same := by
    simp only [writtenPart, String.toList_append, List.append_assoc] at same
    exact (unit_plain unit).2 _ _ same
  further _ _ _ same := absurd (List.cons.inj same).1 (by decide)

/-- Durations other than zero are told apart. -/
theorem eq_of_inspectDuration {microseconds microseconds' : Int} (some_ : microseconds ≠ 0)
    (some' : microseconds' ≠ 0)
    (same : inspectDuration microseconds = inspectDuration microseconds') :
    microseconds = microseconds' := by
  have shown {microseconds : Int} (some_ : microseconds ≠ 0) :
      (inspectDuration microseconds).toList = "datetime.timedelta(".toList ++
        ([',', ' '].intercalate ((parts microseconds).map fun part => (writtenPart part).toList) ++
          [')']) := by
    have parted : ((parts microseconds).map writtenPart).isEmpty = false := by
      rw [List.isEmpty_eq_false_iff, Ne, List.map_eq_nil_iff]
      intro none
      refine some_ ?_
      rw [← total_parts microseconds, none]
      rfl
    rw [inspectDuration_eq, parted, if_neg Bool.false_ne_true, String.toList_append,
      String.toList_append, String.toList_intercalate, List.map_map, List.append_assoc]
    rfl
  -- A duration is the sum of its parts, so that telling these is enough.
  have chars := congrArg String.toList same
  rw [shown some_, shown some'] at chars
  have agreed := eq_of_joined (stops_parts []) (stops_parts [])
    (fun part member => toldApart_part (name_of_mem_parts part member)) name_of_mem_parts
    name_of_mem_parts (List.append_cancel_left chars)
  rw [← total_parts microseconds, ← total_parts microseconds', agreed.1]

/-- An offset is told from every other one. -/
theorem eq_of_inspect {offset offset' : Offset} (same : offset.inspect = offset'.inspect) :
    offset = offset' := by
  have agreed : offset.microseconds = offset'.microseconds := by
    unfold inspect at same
    -- Universal time has a name of its own, which a point sets off where others open a bracket.
    by_cases zero : offset.microseconds = 0 <;> by_cases zero' : offset'.microseconds = 0 <;>
      simp only [zero, zero', beq_iff_eq, if_true, if_false] at same
    · rw [zero, zero']
    · exact absurd (congrArg (fun text => text.toList[17]?) same) (by simp)
    · exact absurd (congrArg (fun text => text.toList[17]?) same) (by simp)
    · refine eq_of_inspectDuration zero zero' (String.toList_injective ?_)
      have chars := congrArg String.toList same
      simp only [String.toList_append, List.append_assoc] at chars
      exact List.append_cancel_right (List.append_cancel_left chars)
  cases offset
  cases offset'
  cases agreed
  rfl

/-- The offset behind a time is told from every other one, and from none. -/
theorem eq_of_inspectLast {offset offset' : Option Offset}
    (same : inspectLast offset = inspectLast offset') : offset = offset' := by
  -- Nothing is written without an offset, and something with one.
  have some_ (offset : Offset) : (", tzinfo=" ++ offset.inspect : String) ≠ "" := by
    intro none
    exact absurd (congrArg (fun text => text.toList[0]?) none) (by simp)
  cases offset with
  | none =>
    cases offset' with
    | none => rfl
    | some offset' => exact (some_ offset' same.symm).elim
  | some offset =>
    cases offset' with
    | none => exact (some_ offset same).elim
    | some offset' =>
      have chars := congrArg String.toList (show ", tzinfo=" ++ offset.inspect = _ from same)
      have behind : (", tzinfo=" ++ offset'.inspect).toList =
          ", tzinfo=".toList ++ offset'.inspect.toList := String.toList_append
      rw [String.toList_append, show (inspectLast (some offset')).toList = _ from behind] at chars
      rw [eq_of_inspect (String.toList_injective (List.append_cancel_left chars))]

/-- No number is read from an offset behind a time. -/
theorem stops_inspectLast (offset : Option Offset) :
    Stops (fun _ => True) Text.numeral ((inspectLast offset).toList ++ [')']) := by
  -- An offset begins with its name behind the separator, which is no number.
  cases offset with
  | none => exact Text.stops_numerals (endsNumeral_cons (by decide) []) (nofun)
  | some offset =>
    have shown : (inspectLast (some offset)).toList ++ [')'] =
        ',' :: ' ' :: 't' :: ("zinfo=".toList ++ (offset.inspect.toList ++ [')'])) := by
      show (", tzinfo=" ++ offset.inspect).toList ++ [')'] = _
      rw [String.toList_append, List.append_assoc]
      rfl
    rw [shown]
    refine Text.stops_numerals (endsNumeral_cons (by decide) _) fun behind same => ?_
    obtain rfl := (List.cons.inj (List.cons.inj same).2).2
    exact endsNumeral_cons (by decide) _

end Offset

namespace Time

/-- A time is shown as the numbers of its clock and the offset behind them. -/
theorem toList_inspect (time : Time) : time.inspect.toList = "datetime.time(".toList ++
    (Text.listed time.clock.numbers ++ ((Offset.inspectLast time.offset).toList ++ [')'])) := by
  show ("datetime.time(" ++ time.clock.inspectParts ++ Offset.inspectLast time.offset ++
    ")").toList = _
  simp only [String.toList_append, Clock.toList_inspectParts, List.append_assoc]
  rfl

/-- A time is told from every other one. -/
theorem eq_of_inspect {time time' : Time} (same : time.inspect = time'.inspect) : time = time' := by
  -- The numbers end where the offset or the bracket begins.
  have chars := congrArg String.toList same
  rw [toList_inspect, toList_inspect] at chars
  obtain ⟨numbers, behind⟩ := Text.eq_of_listed (Offset.stops_inspectLast _)
    (Offset.stops_inspectLast _) (List.append_cancel_left chars)
  have offset := Offset.eq_of_inspectLast
    (String.toList_injective (List.append_cancel_right behind))
  have clock := Clock.eq_of_numbers numbers
  cases time
  cases time'
  cases clock
  cases offset
  rfl

end Time

namespace Date

/-- The numbers of a date. -/
def numbers (date : Date) : List Nat :=
  [date.year, date.month, date.day]

/-- A date is shown as its numbers. -/
theorem toList_inspect (date : Date) : date.inspect.toList =
    "datetime.date(".toList ++ (Text.listed date.numbers ++ [')']) := by
  -- A date is a list of three numbers in its brackets.
  show ("datetime.date(" ++ toString date.year ++ ", " ++ toString date.month ++ ", " ++
    toString date.day ++ ")").toList = _
  simp only [String.toList_append, List.append_assoc]
  simp only [Text.listed, numbers, List.map_cons, Text.intercalate_cons_eq, List.flatMap_cons,
    List.append_assoc]
  rfl

/-- The numbers of a date tell it. -/
theorem eq_of_numbers {date date' : Date} (same : date.numbers = date'.numbers) : date = date' := by
  -- The date is its three numbers.
  obtain ⟨year, month, day, valid⟩ := date
  obtain ⟨year', month', day', valid'⟩ := date'
  simp only [numbers, List.cons.injEq, and_true] at same
  obtain ⟨rfl, rfl, rfl⟩ := same
  rfl

/-- A date is told from every other one. -/
theorem eq_of_inspect {date date' : Date} (same : date.inspect = date'.inspect) : date = date' := by
  -- A date ends in the bracket, as a time without an offset does.
  have chars := congrArg String.toList same
  rw [toList_inspect, toList_inspect] at chars
  have stops := Offset.stops_inspectLast none
  exact eq_of_numbers (Text.eq_of_listed stops stops (List.append_cancel_left chars)).1

end Date

namespace Moment

/-- A moment is shown as the numbers of its date and of its clock, and the offset behind them. -/
theorem toList_inspect (moment : Moment) : moment.inspect.toList = "datetime.datetime(".toList ++
    (Text.listed (moment.date.numbers ++ moment.time.clock.numbers) ++
      ((Offset.inspectLast moment.time.offset).toList ++ [')'])) := by
  -- The numbers of the clock follow those of the date in the same list.
  obtain ⟨others, listed⟩ := moment.time.clock.numbers_eq
  have parts := moment.time.clock.toList_inspectParts
  simp only [listed, Text.listed, List.map_cons, Text.intercalate_cons_eq] at parts
  show ("datetime.datetime(" ++ toString moment.date.year ++ ", " ++ toString moment.date.month ++
    ", " ++ toString moment.date.day ++ ", " ++ moment.time.clock.inspectParts ++
      Offset.inspectLast moment.time.offset ++ ")").toList = _
  simp only [listed, Text.listed, Date.numbers, List.cons_append, List.nil_append, List.map_cons,
    Text.intercalate_cons_eq, List.flatMap_cons, String.toList_append, parts, List.append_assoc]
  rfl

/-- A moment is told from every other one. -/
theorem eq_of_inspect {moment moment' : Moment} (same : moment.inspect = moment'.inspect) :
    moment = moment' := by
  have chars := congrArg String.toList same
  rw [toList_inspect, toList_inspect] at chars
  obtain ⟨numbers, behind⟩ := Text.eq_of_listed (Offset.stops_inspectLast _)
    (Offset.stops_inspectLast _) (List.append_cancel_left chars)
  -- A date has three numbers, so that the numbers of the clocks start at one place.
  obtain ⟨dates, clocks⟩ := List.append_inj numbers rfl
  have offset := Offset.eq_of_inspectLast
    (String.toList_injective (List.append_cancel_right behind))
  have date := Date.eq_of_numbers dates
  have clock := Clock.eq_of_numbers clocks
  obtain ⟨_, _, _⟩ := moment
  obtain ⟨_, _, _⟩ := moment'
  cases date
  cases clock
  cases offset
  rfl

end Moment

namespace Uuid

/-- No hexadecimal digit is a hyphen. -/
theorem hexDigits_unhyphened (width value : Nat) :
    ∀ c ∈ Text.hexDigits width value, (c != '-') = true := by
  -- By induction on the width: each character is a digit, and a hyphen is not.
  induction width generalizing value with
  | zero => exact nofun
  | succ width ih =>
    intro c member
    rw [Text.hexDigits, List.mem_append, List.mem_singleton] at member
    rcases member with earlier | rfl
    · exact ih _ c earlier
    · rw [bne_iff_ne]
      intro hyphen
      have worth := Text.hexValue_hexDigit (Nat.mod_lt value (show 0 < 16 by decide))
      rw [hyphen] at worth
      cases worth

/-- The text of an identifier is its digits, with hyphens between groups of them. -/
theorem filter_text (uuid : Uuid) :
    uuid.text.toList.filter (· != '-') = Text.hexDigits 32 uuid.value := by
  -- Without the hyphens, the five groups are put together again.
  have plain := hexDigits_unhyphened 32 uuid.value
  have length := Text.length_hexDigits 32 uuid.value
  simp only [text, String.toList_intercalate, List.map_cons, List.map_nil, String.toList_ofList]
  generalize Text.hexDigits 32 uuid.value = digits at plain length ⊢
  have group (start count : Nat) :
      ((digits.drop start).take count).filter (· != '-') = (digits.drop start).take count :=
    List.filter_eq_self.mpr fun c member =>
      plain c (List.mem_of_mem_drop (List.mem_of_mem_take member))
  have joined (start count : Nat) :
      (digits.drop start).take count ++ digits.drop (start + count) = digits.drop start := by
    rw [← List.drop_drop, List.take_append_drop]
  have last : (digits.drop 20).take 12 = digits.drop 20 :=
    List.take_of_length_le (by rw [List.length_drop, length])
  simp only [Text.intercalate_cons_eq, List.flatMap_cons, List.flatMap_nil, List.filter_append,
    group]
  rw [last]
  show digits.take 8 ++ ((digits.drop 8).take 4 ++ ((digits.drop 12).take 4 ++
    ((digits.drop 16).take 4 ++ (digits.drop 20 ++ [])))) = digits
  rw [List.append_nil, joined 16, joined 12, joined 8, List.take_append_drop]

/-- An identifier is told from every other one by its text. -/
theorem eq_of_text {uuid uuid' : Uuid} (same : uuid.text = uuid'.text) : uuid = uuid' := by
  -- Without the hyphens the text is the number in hexadecimal, in a width that it fills.
  have digits : Text.hexDigits 32 uuid.value = Text.hexDigits 32 uuid'.value := by
    rw [← filter_text uuid, ← filter_text uuid', same]
  have read := congrArg Text.hexNumber? digits
  have small (id : Uuid) : id.value % 16 ^ 32 = id.value := Nat.mod_eq_of_lt id.bounded
  rw [Text.hexNumber_hexDigits, Text.hexNumber_hexDigits, small, small] at read
  cases uuid
  cases uuid'
  cases read
  rfl

end Uuid

/-- An operator is told from every other one. -/
theorem Operator.eq_of_inspect {operator operator' : Operator}
    (same : (Value.operator operator).inspect = (Value.operator operator').inspect) :
    operator = operator' := by
  have shown (operator : Operator) : (Value.operator operator).inspect.toList =
      "<FilterOperator.".toList ++
        (operator.label.toList ++ (':' :: " '".toList ++ (operator.symbol ++ "'>").toList)) := by
    show ("<FilterOperator." ++ operator.label ++ ": '" ++ operator.symbol ++ "'>").toList = _
    simp only [String.toList_append, List.append_assoc]
    rfl
  have plain (operator : Operator) : ∀ c ∈ operator.label.toList, (c != ':') = true := by
    cases operator <;> simp [Operator.label]
  have chars := congrArg String.toList same
  rw [shown, shown] at chars
  -- The label ends at the colon, and no two operators have one label.
  obtain ⟨labels, -⟩ := Text.eq_of_run (plain operator) (plain operator') (Text.mark_ends _)
    (Text.mark_ends _) (List.append_cancel_left chars)
  have apart : (Operator.all.map Operator.label).Nodup := by decide
  have among (operator : Operator) : operator ∈ Operator.all := by cases operator <;> decide
  exact List.inj_on_of_nodup_map apart (among operator) (among operator')
    (String.toList_injective labels)

namespace Value

/-- Whether a value is a finite number, a truth value, or has a text. -/
def isSimple : Value → Bool
  | .bool _ | .int _ | .text _ | .uuid _ | .moment _ | .date _ | .time _ => true
  | .float number => number.isFinite
  | _ => false

/-- Whether a value stands for a finite number, a truth value or a text. -/
def isScalar : Value → Bool
  | .operator _ => true
  | .member value => value.isSimple
  | value => value.isSimple

/-- The kinds of scalars that their first characters tell. -/
inductive ScalarKind where
  | json
  | uuid
  | moment
  | date
  | time
  | operator
  | member
  deriving DecidableEq

/-- The kind of a scalar that characters announce. -/
def scalarKindOf (chars : List Char) : ScalarKind :=
  if chars.head? = some 'U' then .uuid
  else if chars.head? = some 'd' then
    if chars[9]? = some 't' then .time else if chars[13]? = some '(' then .date else .moment
  else if chars.head? = some '<' then if chars[1]? = some 'F' then .operator else .member
  else .json

/-- The kind of a scalar. -/
def scalarKind : Value → ScalarKind
  | .uuid _ => .uuid
  | .moment _ => .moment
  | .date _ => .date
  | .time _ => .time
  | .operator _ => .operator
  | .member _ => .member
  | _ => .json

/-- Characters that are a kind of JSON value announce no other kind of scalar. -/
theorem scalarKindOf_json {value : Value} (json : value.isJson = true) :
    scalarKindOf value.inspect.toList = .json := by
  obtain ⟨first, rest, shown, kind⟩ := exists_inspect json
  -- What other scalars start with is no start of a JSON value.
  have known : kindOf first ≠ .other := by
    rw [kind]
    cases value with
    | null | bool | int | float | text | list | map => exact nofun
    | _ => cases json
  have other {c : Char} (strange : kindOf c = .other) : ¬(first :: rest).head? = some c := by
    intro same
    obtain rfl := Option.some.inj same
    exact known strange
  rw [shown]
  unfold scalarKindOf
  rw [if_neg (other (by decide)), if_neg (other (by decide)), if_neg (other (by decide))]

/-- The telling form of a scalar announces its kind. -/
theorem scalarKindOf_inspect {value : Value} (scalar : value.isScalar = true) :
    scalarKindOf value.inspect.toList = value.scalarKind := by
  -- Each kind of scalar is shown by a word or a mark of its own.
  cases value with
  | bool | int | float | text => exact scalarKindOf_json scalar
  | uuid id =>
    show scalarKindOf ("UUID('" ++ id.text ++ "')").toList = .uuid
    rw [String.toList_append, String.toList_append, List.append_assoc]
    rfl
  | moment moment =>
    show scalarKindOf moment.inspect.toList = .moment
    rw [Moment.toList_inspect]
    rfl
  | date date =>
    show scalarKindOf date.inspect.toList = .date
    rw [Date.toList_inspect]
    rfl
  | time time =>
    show scalarKindOf time.inspect.toList = .time
    rw [Time.toList_inspect]
    rfl
  | operator operator =>
    show scalarKindOf
      ("<FilterOperator." ++ operator.label ++ ": '" ++ operator.symbol ++ "'>").toList = .operator
    simp only [String.toList_append, List.append_assoc]
    rfl
  | member value =>
    show scalarKindOf ("<E.X: " ++ value.inspect ++ ">").toList = .member
    rw [String.toList_append, String.toList_append, List.append_assoc]
    rfl
  | _ => cases scalar

/-- Simple values that are shown alike are the same. -/
theorem eq_of_inspect_simple {value value' : Value} (simple : value.isSimple = true)
    (simple' : value'.isSimple = true) (same : value.inspect = value'.inspect) :
    value = value' := by
  -- The kinds are told apart first, and then within a kind what stands between the brackets.
  have scalar {value : Value} (simple : value.isSimple = true) : value.isScalar = true := by
    cases value with
    | bool | int | float | text | uuid | moment | date | time => exact simple
    | _ => cases simple
  have kinds : value.scalarKind = value'.scalarKind := by
    rw [← scalarKindOf_inspect (scalar simple), ← scalarKindOf_inspect (scalar simple'), same]
  cases value with
  | bool | int | float | text =>
    cases value' with
    | bool | int | float | text => exact eq_of_inspect simple simple' same
    | uuid | moment | date | time => cases kinds
    | _ => cases simple'
  | uuid id =>
    cases value' with
    | uuid id' =>
      have chars := congrArg String.toList
        (show "UUID('" ++ id.text ++ "')" = "UUID('" ++ id'.text ++ "')" from same)
      simp only [String.toList_append, List.append_assoc] at chars
      have digits := List.append_cancel_right (List.append_cancel_left chars)
      rw [Uuid.eq_of_text (String.toList_injective digits)]
    | _ => cases kinds
  | moment moment =>
    cases value' with
    | moment moment' => rw [Moment.eq_of_inspect same]
    | _ => cases kinds
  | date date =>
    cases value' with
    | date date' => rw [Date.eq_of_inspect same]
    | _ => cases kinds
  | time time =>
    cases value' with
    | time time' => rw [Time.eq_of_inspect same]
    | _ => cases kinds
  | _ => cases simple

/-- Scalars that are shown alike are the same. -/
theorem eq_of_inspect_scalar {value value' : Value} (scalar : value.isScalar = true)
    (scalar' : value'.isScalar = true) (same : value.inspect = value'.inspect) :
    value = value' := by
  -- A member is shown around what it stands for, which is no member itself.
  have kinds : value.scalarKind = value'.scalarKind := by
    rw [← scalarKindOf_inspect scalar, ← scalarKindOf_inspect scalar', same]
  cases value with
  | operator operator =>
    cases value' with
    | operator operator' => rw [Operator.eq_of_inspect same]
    | _ => cases kinds
  | member inner =>
    cases value' with
    | member inner' =>
      have chars := congrArg String.toList
        (show "<E.X: " ++ inner.inspect ++ ">" = "<E.X: " ++ inner'.inspect ++ ">" from same)
      simp only [String.toList_append, List.append_assoc] at chars
      have shown := String.toList_injective
        (List.append_cancel_right (List.append_cancel_left chars))
      rw [eq_of_inspect_simple scalar scalar' shown]
    | _ => cases kinds
  | bool | int | float | text | uuid | moment | date | time =>
    cases value' with
    | operator | member => cases kinds
    | bool | int | float | text | uuid | moment | date | time =>
      exact eq_of_inspect_simple scalar scalar' same
    | _ => cases scalar'
  | _ => cases scalar

end Value

end ContentQuery
