/-! Days of the Gregorian calendar, their ordinals and their ISO text. -/

namespace ContentQuery

/-- A decimal number filled up with zeros to a width. -/
def padded (width value : Nat) : String :=
  let digits := Nat.toDigits 10 value
  String.ofList (List.replicate (width - digits.length) '0' ++ digits)

/-- A year divisible by four is a leap year, except for three of four full centuries. -/
def isLeapYear (year : Nat) : Bool :=
  year % 4 == 0 && (year % 100 != 0 || year % 400 == 0)

/-- The number of days in a month. -/
def daysInMonth (year month : Nat) : Nat :=
  if month == 2 then (if isLeapYear year then 29 else 28)
  else if month == 4 || month == 6 || month == 9 || month == 11 then 30
  else 31

/-- The dates the calendar has, from the first day of year 1 to the last of year 9999. -/
def ValidDate (year month day : Nat) : Prop :=
  (1 ≤ year ∧ year ≤ 9999) ∧ (1 ≤ month ∧ month ≤ 12) ∧ 1 ≤ day ∧ day ≤ daysInMonth year month

instance (year month day : Nat) : Decidable (ValidDate year month day) :=
  inferInstanceAs (Decidable ((_ ∧ _) ∧ (_ ∧ _) ∧ _ ∧ _))

/-- A day of the calendar. -/
structure Date where
  year : Nat
  month : Nat
  day : Nat
  valid : ValidDate year month day
  deriving DecidableEq

namespace Date

/-- The date with the given parts, if the calendar has it. -/
def ofParts? (year month day : Nat) : Option Date :=
  if valid : ValidDate year month day then some ⟨year, month, day, valid⟩ else none

/-- The number of days before the first day of a year, counted from year 1. -/
def daysBeforeYear (year : Nat) : Nat :=
  let past := year - 1
  past * 365 + past / 4 - past / 100 + past / 400

/-- The number of days before the first day of a month, counted from the start of its year. -/
def daysBeforeMonth (year month : Nat) : Nat :=
  (List.range' 1 (month - 1)).foldl (fun days earlier => days + daysInMonth year earlier) 0

/-- The position of a date among all dates, the first of them at 1. -/
def ordinal (date : Date) : Nat :=
  daysBeforeYear date.year + daysBeforeMonth date.year date.month + date.day

/-- The day of the week of an ordinal, Monday at zero. -/
def weekday (ordinal : Nat) : Nat :=
  (ordinal + 6) % 7

/-- Finds the month of a day of the year, walking over the months that remain. -/
def ofYearDay? (year : Nat) : (months : List Nat) → (day : Nat) → Option Date
  | [], _ => none
  | month :: rest, day =>
    if day ≤ daysInMonth year month then ofParts? year month day
    else ofYearDay? year rest (day - daysInMonth year month)

/-- The date at an ordinal that lies in a year or in one of its two neighbours. -/
def ofOrdinalNear? (year ordinal : Nat) : Option Date :=
  let inYear (candidate : Nat) :=
    ofYearDay? candidate (List.range' 1 12) (ordinal - daysBeforeYear candidate)
  if ordinal ≤ daysBeforeYear year then inYear (year - 1)
  else if ordinal ≤ daysBeforeYear (year + 1) then inYear year
  else inYear (year + 1)

/--
The ordinal of the Monday that opens the first week of a year, the one with its first Thursday.
-/
def firstMonday (year : Nat) : Nat :=
  let first := daysBeforeYear year + 1
  let passed := weekday first
  if passed ≤ 3 then first - passed else first + 7 - passed

/-- A year has 53 weeks when it starts on a Thursday, or on a Wednesday if it is a leap year. -/
def weeksInYear (year : Nat) : Nat :=
  let first := weekday (daysBeforeYear year + 1)
  if first == 3 || (first == 2 && isLeapYear year) then 53 else 52

/-- The date of a day of a week of a year. -/
def ofWeek? (year week day : Nat) : Option Date :=
  if 1 ≤ year && year ≤ 9999 && 1 ≤ week && week ≤ weeksInYear year
      && 1 ≤ day && day ≤ 7 then
    ofOrdinalNear? year (firstMonday year + (week - 1) * 7 + (day - 1))
  else none

/-- The ISO text of a date. -/
def iso (date : Date) : String :=
  padded 4 date.year ++ "-" ++ padded 2 date.month ++ "-" ++ padded 2 date.day

end Date

end ContentQuery
