import ContentQuery.Binary64.Arithmetic
import ContentQuery.Value.Text

/-! Limits on the depth to which something may be nested. -/

namespace ContentQuery

/-- A limit on a depth; besides a number of levels, callers may give a truth value or a fraction. -/
inductive DepthLimit where
  | levels (count : Int)
  | flag (value : Bool)
  | fraction (value : Binary64)
  /-- A value of a kind that no depth compares with. -/
  | unordered
  deriving DecidableEq

namespace DepthLimit

/-- The limit that a value sets. -/
def ofValue : Value → DepthLimit
  | .int count => .levels count
  | .bool value => .flag value
  | .float value => .fraction value
  | _ => .unordered

/-- A limit as a value. -/
def toValue : DepthLimit → Value
  | .levels count => .int count
  | .flag value => .bool value
  | .fraction value => .float value
  | .unordered => .null

/-- Whether a depth exceeds a limit, where the two compare. -/
def exceeded? (limit : DepthLimit) (depth : Int) : Option Bool :=
  match limit with
  | .levels count => some (count < depth)
  | .flag value => some (value.toInt < depth)
  | .fraction value => some (value.isBelow depth)
  | .unordered => none

end DepthLimit

end ContentQuery
