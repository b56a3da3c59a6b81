/-! The comparison operators that every target understands in one form or another. -/

namespace ContentQuery

/-- A comparison between a field and a literal. -/
inductive Operator where
  | equal
  | notEqual
  | greater
  | atLeast
  | less
  | atMost
  | oneOf
  | noneOf
  | contains
  | containsAny
  | containsAll
  | matches
  | startsWith
  | endsWith
  | defined
  | undefined
  | references
  deriving DecidableEq, Repr

namespace Operator

/-- Every operator, in the order in which they are listed. -/
def all : List Operator :=
  [.equal, .notEqual, .greater, .atLeast, .less, .atMost, .oneOf, .noneOf, .contains,
    .containsAny, .containsAll, .matches, .startsWith, .endsWith, .defined, .undefined,
    .references]

/-- The text that stands for an operator in a filter. -/
def symbol : Operator → String
  | .equal => "=="
  | .notEqual => "!="
  | .greater => ">"
  | .atLeast => ">="
  | .less => "<"
  | .atMost => "<="
  | .oneOf => "in"
  | .noneOf => "nin"
  | .contains => "contains"
  | .containsAny => "containsAny"
  | .containsAll => "containsAll"
  | .matches => "match"
  | .startsWith => "startsWith"
  | .endsWith => "endsWith"
  | .defined => "defined"
  | .undefined => "undefined"
  | .references => "references"

/-- The label of an operator in messages. -/
def label : Operator → String
  | .equal => "EQ"
  | .notEqual => "NE"
  | .greater => "GT"
  | .atLeast => "GTE"
  | .less => "LT"
  | .atMost => "LTE"
  | .oneOf => "IN"
  | .noneOf => "NIN"
  | .contains => "CONTAINS"
  | .containsAny => "CONTAINS_ANY"
  | .containsAll => "CONTAINS_ALL"
  | .matches => "MATCH"
  | .startsWith => "STARTS_WITH"
  | .endsWith => "ENDS_WITH"
  | .defined => "DEFINED"
  | .undefined => "UNDEFINED"
  | .references => "REFERENCES"

/-- The operator that a text stands for. -/
def ofSymbol? (text : String) : Option Operator :=
  all.find? (·.symbol == text)

end Operator

end ContentQuery
