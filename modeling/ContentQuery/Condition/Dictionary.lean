import ContentQuery.Condition.Node

/-! The dictionary form of filters: maps with the keys of a leaf, or with one combinator. -/

namespace ContentQuery.Node

/-- The keys that the map of a filter node may have. -/
def keys : List String :=
  ["field", "operator", "value", "and", "or", "not"]

/-- Whether a key is one of a filter node. -/
def isKey : Value → Bool
  | .text name => keys.contains name
  | _ => false

/-- The text of a key that is one. -/
def keyText? : Value → Option String
  | .text name => some name
  | _ => none

/-- Refuses maps with keys that no filter node has. -/
def checkKeys (position : Position) (entries : List (Value × Value)) : Except Fault Unit :=
  match (entries.map Prod.fst).filter (!isKey ·) with
  | [] => .ok ()
  | unknown =>
    match unknown.mapM keyText? with
    | none => .error .mistyped
    | some names =>
      .error (.malformed (.unknownKeys (names.mergeSort fun left right => decide (left ≤ right)))
        position)

mutual

/-- Reads a filter node from its map; a node that is one already stays as it is. -/
def ofDictionary (limit : DepthLimit) (depth : Nat) (position : Position) :
    Value → Except Fault Value
  | .map entries => do
    Nesting.filter.checkDepth limit depth position
    checkKeys position entries
    let negated ← negatedOf limit (depth + 1) position entries
    let all ← childrenOf limit (depth + 1) position .all entries
    let any ← childrenOf limit (depth + 1) position .any entries
    let part (name : String) := (Value.lookup? name entries).getD .null
    let node : Node :=
      ⟨part "field", (part "operator").relationOf, part "value", all, any, negated⟩
    let _ ← node.shapeAt position
    return node.toValue
  | .node field relation value all any negated => do
    Nesting.filter.checkDepth limit depth position
    return .node field relation value all any negated
  | other => do
    Nesting.filter.checkDepth limit depth position
    throw (.malformed (.notMap other.typeName) position)
termination_by structural input => input

/-- Reads the negated node of a map, or gives null where there is none. -/
def negatedOf (limit : DepthLimit) (depth : Nat) (position : Position) :
    List (Value × Value) → Except Fault Value
  | [] => .ok .null
  | (key, value) :: rest =>
    if keyText? key = some Shape.not.word then
      ofDictionary limit depth (position.down .negated) value
    else negatedOf limit depth position rest
termination_by structural input => input

/-- Reads the children under a combinator of a map, or gives null where there are none. -/
def childrenOf (limit : DepthLimit) (depth : Nat) (position : Position) (shape : Shape) :
    List (Value × Value) → Except Fault Value
  | [] => .ok .null
  | (key, value) :: rest =>
    if keyText? key = some shape.word then
      childrenIn limit depth position shape value
    else childrenOf limit depth position shape rest
termination_by structural input => input

/-- Reads the children in a list or a tuple. -/
def childrenIn (limit : DepthLimit) (depth : Nat) (position : Position) (shape : Shape) :
    Value → Except Fault Value
  | .list items => return .list (← itemsOf limit depth position shape 0 items)
  | .tuple items => return .list (← itemsOf limit depth position shape 0 items)
  | _ => .error (.malformed (.childrenNotList shape) position)
termination_by structural input => input

/-- Reads children one after the other, the first of them at `index`. -/
def itemsOf (limit : DepthLimit) (depth : Nat) (position : Position) (shape : Shape) (index : Nat) :
    List Value → Except Fault (List Value)
  | [] => .ok []
  | item :: rest => do
    let step := if shape = .all then Step.all index else Step.any index
    let node ← ofDictionary limit depth (position.down step) item
    return node :: (← itemsOf limit depth position shape (index + 1) rest)
termination_by structural input => input

end

end ContentQuery.Node
