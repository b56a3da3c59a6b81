import ContentQuery.Format.Fault

/-! The forms of literals in a flat map of request parameters. -/

namespace ContentQuery

/-- What a request parameter can carry. -/
inductive Parameter where
  | text (value : String)
  | int (value : Int)
  | float (value : Binary64)
  deriving DecidableEq

namespace Parameter

/-- The text that a parameter is sent as. -/
def sent : Parameter → String
  | .text value => value
  | .int value => toString value
  | .float value => value.text

/-- Whether the text that a parameter is sent as can be written. -/
def isWritable : Parameter → Bool
  | .int value => Text.isWritable value
  | _ => true

/-- A parameter as a value. -/
def toValue : Parameter → Value
  | .text value => .text value
  | .int value => .int value
  | .float value => .float value

/-- Equality of parameters, where numbers compare by what they are worth. -/
def same : Parameter → Parameter → Bool
  | .text left, .text right => left == right
  | .int left, .int right => left == right
  | .float left, .float right => left.sameNumber right
  | .float left, .int right => left.sameInt right
  | .int left, .float right => right.sameInt left
  | _, _ => false

/-- The parameter of a scalar: truth values are sent as words, and null cannot be sent. -/
def ofScalar (value : Value) : Except FormatFault Parameter :=
  match value.scalar with
  | .bool flag => .ok (.text (if flag then "true" else "false"))
  | .int number => .ok (.int number)
  | .float number => if number.isFinite then .ok (.float number) else .error (.notFinite number)
  | .text words => .ok (.text words)
  | .null => .error .nullParameter
  | other => .error (.notParameter other.typeName)

/-- Whether a value holds other values, so that it cannot be an item of a list parameter. -/
def isContainer : Value → Bool
  | .list _ | .tuple _ | .set _ _ | .map _ => true
  | _ => false

/-- One item of a list parameter, which must not hold the separator of the list. -/
def item (value : Value) : Except FormatFault String := do
  if isContainer value then throw .nestedParameterList
  let parameter ← ofScalar value
  if !parameter.isWritable then throw .unwritable
  let part := parameter.sent
  -- The separator could not be told from a part of the item.
  if part.toList.contains ',' then throw (.commaInItem part)
  return part

/-- A list parameter: its items with commas between them. -/
def ofItems (items : List Value) : Except FormatFault Parameter :=
  if items.isEmpty then .error .emptyParameterList
  else return .text (",".intercalate (← items.mapM item))

/-- The parameter of a literal. -/
def ofValue (value : Value) : Except FormatFault Parameter := do
  value.checkSortable
  match value.orderedItems? with
  | some items => ofItems items
  | none =>
    match value with
    -- A map has a fault of its own; every other value is tried as a scalar.
    | .map _ => .error .mapParameter
    | scalar => ofScalar scalar

end Parameter

end ContentQuery
