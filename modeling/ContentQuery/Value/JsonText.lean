import ContentQuery.Binary64.Text
import ContentQuery.Text.JsonString
import ContentQuery.Value.Basic

/-! JSON texts of the values that have one. -/

namespace ContentQuery

namespace Value

/-- A floating-point number in JSON, where the words for nan and the infinities are tolerated. -/
def jsonNumber : Binary64 → String
  | .nan => "NaN"
  | .infinite negative => if negative then "-Infinity" else "Infinity"
  | number => number.text

/-- A truth value in JSON. -/
def jsonFlag (value : Bool) : String :=
  if value then "true" else "false"

/-- The name that a key of a map becomes in JSON. -/
def jsonKey? : Value → Option String
  | .text key => some key
  | .null => some "null"
  | .bool key => some (jsonFlag key)
  | .int key => some (toString key)
  | .float key => some (jsonNumber key)
  | _ => none

mutual

/-- The JSON text of a value. -/
def jsonText? : Value → Option String
  | .null => some "null"
  | .bool value => some (jsonFlag value)
  | .int value => some (toString value)
  | .float value => some (jsonNumber value)
  | .text value => some (Text.jsonString value)
  | .list items => do return "[" ++ ", ".intercalate (← jsonTexts? items) ++ "]"
  | .tuple items => do return "[" ++ ", ".intercalate (← jsonTexts? items) ++ "]"
  | .map entries => do return "\x7b" ++ ", ".intercalate (← jsonMembers? entries) ++ "\x7d"
  | _ => none
termination_by structural input => input

/-- The JSON texts of values, if all of them have one. -/
def jsonTexts? : List Value → Option (List String)
  | [] => some []
  | item :: rest => do return (← jsonText? item) :: (← jsonTexts? rest)
termination_by structural input => input

/-- The JSON texts of the entries of a map. -/
def jsonMembers? : List (Value × Value) → Option (List String)
  | [] => some []
  | (key, value) :: rest => do
    let name ← jsonKey? key
    let text ← jsonText? value
    return (Text.jsonString name ++ ": " ++ text) :: (← jsonMembers? rest)
termination_by structural input => input

end

end Value

end ContentQuery
