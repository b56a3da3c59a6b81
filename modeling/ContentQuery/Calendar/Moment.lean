import ContentQuery.Calendar.Date

/-! Times of day, offsets from universal time, and moments made of a date and a time. -/

namespace ContentQuery

/-- A time of day, with a resolution of one microsecond. -/
structure Clock where
  hour : Nat
  minute : Nat
  second : Nat
  microsecond : Nat
  valid : hour < 24 ∧ minute < 60 ∧ second < 60 ∧ microsecond < 1000000
  deriving DecidableEq

/-- An offset from universal time of less than a day in either direction. -/
structure Offset where
  microseconds : Int
  bounded : -86400000000 < microseconds ∧ microseconds < 86400000000
  deriving DecidableEq

/-- A time of day that may know its offset from universal time. -/
structure Time where
  clock : Clock
  offset : Option Offset
  deriving DecidableEq

/-- A date and a time of day that may know its offset from universal time. -/
structure Moment where
  date : Date
  time : Time
  deriving DecidableEq

namespace Clock

/-- The time of day with the given parts, if a day has it. -/
def ofParts? (hour minute second microsecond : Nat) : Option Clock :=
  if valid : hour < 24 ∧ minute < 60 ∧ second < 60 ∧ microsecond < 1000000 then
    some ⟨hour, minute, second, microsecond, valid⟩
  else none

/-- The start of a day. -/
def midnight : Clock :=
  ⟨0, 0, 0, 0, by decide⟩

/-- The seconds since the start of the day. -/
def seconds (clock : Clock) : Nat :=
  clock.hour * 3600 + clock.minute * 60 + clock.second

/-- The ISO text of a time of day, whose fraction is left out when it is zero. -/
def iso (clock : Clock) : String :=
  let whole := padded 2 clock.hour ++ ":" ++ padded 2 clock.minute ++ ":" ++ padded 2 clock.second
  if clock.microsecond == 0 then whole else whole ++ "." ++ padded 6 clock.microsecond

end Clock

namespace Offset

/-- The offset of a number of microseconds, if it is shorter than a day. -/
def ofMicroseconds? (microseconds : Int) : Option Offset :=
  if bounded : -86400000000 < microseconds ∧ microseconds < 86400000000 then
    some ⟨microseconds, bounded⟩
  else none

/-- Universal time itself. -/
def universal : Offset :=
  ⟨0, by decide⟩

/-- The whole seconds of an offset, rounded down. -/
def seconds (offset : Offset) : Int :=
  offset.microseconds.fdiv 1000000

/-- The ISO text of an offset, which goes below minutes only where it has to. -/
def iso (offset : Offset) : String :=
  let magnitude := offset.microseconds.natAbs
  let microsecond := magnitude % 1000000
  let second := magnitude / 1000000 % 60
  let minute := magnitude / 60000000 % 60
  let hour := magnitude / 3600000000
  let sign := if offset.microseconds < 0 then "-" else "+"
  let short := sign ++ padded 2 hour ++ ":" ++ padded 2 minute
  if microsecond != 0 then short ++ ":" ++ padded 2 second ++ "." ++ padded 6 microsecond
  else if second != 0 then short ++ ":" ++ padded 2 second
  else short

end Offset

namespace Time

/-- The ISO text of a time. -/
def iso (time : Time) : String :=
  time.clock.iso ++ (time.offset.map Offset.iso).getD ""

/-- The second of universal time, counted without wrapping, and the fraction within it. -/
def universalSecond (time : Time) (offset : Offset) : Int × Nat :=
  ((time.clock.seconds : Int) - offset.seconds, time.clock.microsecond)

/-- Times are the same when they show the same clock, or the same second of universal time. -/
def same (left right : Time) : Bool :=
  match left.offset, right.offset with
  | none, none => left.clock = right.clock
  | some leftOffset, some rightOffset =>
    if leftOffset = rightOffset then left.clock = right.clock
    else left.universalSecond leftOffset == right.universalSecond rightOffset
  | _, _ => false

end Time

namespace Moment

/-- The start of a day, with no offset. -/
def ofDate (date : Date) : Moment :=
  ⟨date, .midnight, none⟩

/-- The ISO text of a moment, with a separator between its date and its time. -/
def isoWith (separator : String) (moment : Moment) : String :=
  moment.date.iso ++ separator ++ moment.time.iso

/-- The ISO text of a moment. -/
def iso (moment : Moment) : String :=
  moment.isoWith "T"

/-- The microsecond of universal time that a moment with an offset stands for. -/
def universal (moment : Moment) (offset : Offset) : Int :=
  ((moment.date.ordinal * 86400 + moment.time.clock.seconds) * 1000000
    + moment.time.clock.microsecond : Nat) - offset.microseconds

/-- Moments are the same at the same instant; one without an offset never equals one with it. -/
def same (left right : Moment) : Bool :=
  match left.time.offset, right.time.offset with
  | none, none => left = right
  | some leftOffset, some rightOffset => left.universal leftOffset == right.universal rightOffset
  | _, _ => false

end Moment

end ContentQuery
