import ContentQuery.Format.Fault

/-! The forms of literals in exact matches against a payload. -/

namespace ContentQuery

/-- What a payload value can be matched with. -/
inductive MatchValue where
  | text (value : String)
  | int (value : Int)
  | bool (value : Bool)
  deriving DecidableEq

/-- The values of an any-of match, which are of one kind. -/
inductive MatchList where
  | texts (values : List String)
  | ints (values : List Int)
  deriving DecidableEq

namespace MatchValue

/-- A match value as a value. -/
def toValue : MatchValue → Value
  | .text value => .text value
  | .int value => .int value
  | .bool value => .bool value

/-- The match value of a literal. -/
def ofValue (value : Value) : Except FormatFault MatchValue :=
  match value.scalar with
  | .text words => .ok (.text words)
  | .int number => .ok (.int number)
  | .bool flag => .ok (.bool flag)
  | other => .error (.notMatchable other.typeName)

end MatchValue

namespace MatchList

/-- The values of an any-of match as values. -/
def toValues : MatchList → List Value
  | .texts values => values.map .text
  | .ints values => values.map .int

/-- The text of a value that is one. -/
def text? : Value → Option String
  | .text words => some words
  | _ => none

/-- The integer of a value that is one. -/
def int? : Value → Option Int
  | .int number => some number
  | _ => none

/-- The any-of match of a list, or of a single value. -/
def ofValue (value : Value) : Except FormatFault MatchList := do
  value.checkSortable
  let items := (value.orderedItems?.getD [value]).map Value.scalar
  if items.isEmpty then .error .emptyMatchList
  else
    -- Texts are tried first, and a mixed list is neither.
    match items.mapM text? with
    | some words => .ok (.texts words)
    | none =>
      match items.mapM int? with
      | some numbers => .ok (.ints numbers)
      | none => .error .mixedMatchList

end MatchList

end ContentQuery
