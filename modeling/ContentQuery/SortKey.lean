import ContentQuery.Fault
import ContentQuery.Text.Blank

/-! Sort keys as they are given, and the entries of a sort order. -/

namespace ContentQuery

namespace Direction

/-- The direction that a word names, in capitals or not. -/
def ofValue? : Value → Option Direction
  | .text word =>
    let lowered := Text.lowerAscii word
    if lowered = "asc" then some .ascending
    else if lowered = "desc" then some .descending
    else none
  | _ => none

end Direction

namespace SortKey

/-- The sort key of a field and a direction. -/
def ofParts (field direction : Value) : Except Fault SortKey :=
  match field with
  | .text name =>
    if name.isEmpty then .error (.invalid .sortWithoutField)
    else
      match Direction.ofValue? direction with
      | some known => .ok ⟨name, known⟩
      | none => .error (.invalid (.invalidDirection direction name))
  | _ => .error (.invalid .sortWithoutField)

/-- The sort key of a map, ascending where the map names no direction. -/
def ofMap (entries : List (Value × Value)) : Except Fault SortKey :=
  ofParts ((Value.lookup? "field" entries).getD .null)
    ((Value.lookup? "direction" entries).getD (.text Direction.ascending.keyword))

end SortKey

namespace Value

/-- The field of an entry of a sort order; filter nodes have a field too. -/
def sortField : Value → Except Fault Value
  | .sortKey key => .ok (.text key.field)
  | .node field _ _ _ _ _ => .ok field
  | _ => .error .mistyped

/-- The direction of an entry of a sort order. -/
def sortDirection : Value → Except Fault Direction
  | .sortKey key => .ok key.direction
  | _ => .error .mistyped

end Value

end ContentQuery
