import ContentQuery.Format.Fault

/-! The forms of literals as identifiers of points. -/

namespace ContentQuery

/-- The identifier of a point: a number or a universally unique identifier. -/
inductive PointId where
  | number (value : Nat)
  | uuid (value : Uuid)
  deriving DecidableEq

namespace PointId

/-- A point identifier as a value. -/
def toValue : PointId → Value
  | .number value => .int value
  | .uuid value => .text value.text

/-- Whether a point identifier can be written. -/
def isWritable (id : PointId) : Bool :=
  id.toValue.canInspect

/-- The point identifier of a literal. -/
def ofValue : Value → Except FormatFault PointId
  | .uuid value => .ok (.uuid value)
  | .int (.ofNat value) => .ok (.number value)
  | .int (.negSucc below) =>
    -- The message about a negative number shows it.
    .error (if Text.isWritable (.negSucc below) then .negativePoint (.negSucc below)
      else .unwritable)
  | .text words =>
    match Uuid.read? words with
    | some value => .ok (.uuid value)
    | none => .error (.textNotPoint words)
  | other => .error (.notPoint other.typeName)

end PointId

end ContentQuery
