import ContentQuery.Calendar.IsoReader
import ContentQuery.Format.Fault

/-! The forms of literals in range comparisons: numbers and moments. -/

namespace ContentQuery

/-- The end of a range. -/
inductive Bound where
  | number (value : Binary64)
  | moment (value : Moment)
  deriving DecidableEq

/-- Why a literal cannot end a range; an integer out of range is a failure of its own. -/
inductive BoundFault where
  | unsuited (fault : FormatFault)
  | overflow

namespace Bound

/-- Spells the offset that the letter Z stands for. -/
def spellZulu (text : String) : String :=
  String.ofList (text.toList.flatMap fun c => if c == 'Z' then "+00:00".toList else [c])

/-- The bound of a literal: dates stand for their first moment, texts for the moment they name. -/
def ofValue : Value → Except BoundFault Bound
  -- A truth value would pass for a number, and so comes first.
  | .bool _ => .error (.unsuited .truthValueBound)
  | .int integer =>
    match Binary64.ofInt? integer with
    | some nearest => .ok (.number nearest)
    | none => .error .overflow
  | .float value =>
    if value.isFinite then .ok (.number value) else .error (.unsuited (.notFinite value))
  | .moment value => .ok (.moment value)
  | .date value => .ok (.moment (.ofDate value))
  | .text words =>
    match IsoReader.readMoment? (spellZulu words) with
    | some value => .ok (.moment value)
    | none => .error (.unsuited (.textNotBound words))
  | other => .error (.unsuited (.notBound other.typeName))

end Bound

end ContentQuery
