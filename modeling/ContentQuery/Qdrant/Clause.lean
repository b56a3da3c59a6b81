import ContentQuery.Format.Bound
import ContentQuery.Format.Match
import ContentQuery.Format.Point

/-! Filter clauses over the payload of points. -/

namespace ContentQuery.Qdrant

/-- How a payload value is matched. -/
inductive Match where
  | value (value : MatchValue)
  | anyOf (values : MatchList)
  | noneOf (values : MatchList)
  | words (text : String)
  deriving DecidableEq

/-- Whether a match can be written: no integer in it has too many digits. -/
def Match.isWritable : Match → Bool
  | .value found => found.toValue.canInspect
  | .anyOf values | .noneOf values => values.toValues.all Value.canInspect
  | .words _ => true

/-- The side on which a range is closed off. -/
inductive RangeSide where
  | greater
  | atLeast
  | less
  | atMost
  deriving DecidableEq, Repr

/-- The keyword of a side of a range. -/
def RangeSide.keyword : RangeSide → String
  | .greater => "gt"
  | .atLeast => "gte"
  | .less => "lt"
  | .atMost => "lte"

/-- A filter clause. -/
inductive Clause where
  | matching (key : String) (how : Match)
  | range (key : String) (side : RangeSide) (bound : Bound)
  | hasId (ids : List PointId)
  | isNull (key : String)
  | isEmpty (key : String)
  /-- All of the first, one of the second if there are any, and none of the third. -/
  | filter (must should mustNot : List Clause)

namespace Clause

mutual

/-- Whether a clause can be written: no integer in it has too many digits. -/
def isWritable : Clause → Bool
  | .matching _ how => how.isWritable
  | .hasId ids => ids.all PointId.isWritable
  | .filter must should mustNot =>
    allWritable must && allWritable should && allWritable mustNot
  | .range _ _ _ | .isNull _ | .isEmpty _ => true
termination_by structural input => input

/-- Whether every clause of a list can be written. -/
def allWritable : List Clause → Bool
  | [] => true
  | clause :: rest => isWritable clause && allWritable rest
termination_by structural input => input

end

/-- The clause that another one does not hold. -/
def negated (clause : Clause) : Clause :=
  .filter [] [] [clause]

end Clause

/-- What a condition converts to: nothing where it was dropped, no constraint, or a clause. -/
inductive Converted where
  | dropped
  | unconstrained
  | clause (clause : Clause)

namespace Converted

/-- The clause of a converted condition, if there is one. -/
def clause? : Converted → Option Clause
  | .clause found => some found
  | _ => none

/-- Whether a converted condition constrains nothing. -/
def isUnconstrained : Converted → Bool
  | .unconstrained => true
  | _ => false

end Converted

end ContentQuery.Qdrant
