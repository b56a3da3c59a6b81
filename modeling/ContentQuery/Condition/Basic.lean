import ContentQuery.Value.Basic

/-! Filter conditions: trees of comparisons joined by conjunction, disjunction and negation. -/

namespace ContentQuery

/-- What a leaf compares with: an operator, or a word that is none. -/
inductive Comparison where
  | known (operator : Operator)
  | unknown (word : String)
  deriving DecidableEq

namespace Comparison

/-- The word for a comparison. -/
def word : Comparison → String
  | .known operator => operator.symbol
  | .unknown word => word

end Comparison

/-- A well-formed filter condition. -/
inductive Condition where
  /-- A comparison of a field, which only a reference comparison may leave out as null. -/
  | leaf (field : Value) (comparison : Comparison) (value : Value)
  | all (conditions : List Condition)
  | any (conditions : List Condition)
  | not (condition : Condition)

namespace Condition

/-- The field of a leaf; other conditions have none. -/
def field : Condition → Value
  | .leaf field _ _ => field
  | _ => .null

mutual

/-- Whether a condition is a conjunction, nested or not, that constrains nothing. -/
def alwaysTrue : Condition → Bool
  | .all conditions => allAlwaysTrue conditions
  | _ => false
termination_by structural input => input

/-- Whether every condition of a list constrains nothing. -/
def allAlwaysTrue : List Condition → Bool
  | [] => true
  | condition :: rest => alwaysTrue condition && allAlwaysTrue rest
termination_by structural input => input

end

end Condition

end ContentQuery
