import ContentQuery.Condition.Basic
import ContentQuery.Fault

/-! Filter nodes as they are given: their shape, and the conditions that they stand for. -/

namespace ContentQuery

/-- The parts of a filter node; a part that is left out is null. -/
structure Node where
  field : Value
  relation : Value
  value : Value
  all : Value
  any : Value
  negated : Value

namespace Node

/-- The node that a value is, if it is one. -/
def ofValue? : Value → Option Node
  | .node field relation value all any negated => some ⟨field, relation, value, all, any, negated⟩
  | _ => none

/-- A node as a value. -/
def toValue (node : Node) : Value :=
  .node node.field node.relation node.value node.all node.any node.negated

/-- The shapes that the parts of a node speak for. -/
def shapes (node : Node) : List Shape :=
  (if node.field.isNull && node.relation.isNull then [] else [.leaf])
    ++ (if node.all.isNull then [] else [.all])
    ++ (if node.any.isNull then [] else [.any])
    ++ (if node.negated.isNull then [] else [.not])

/-- Whether a value is a list or a tuple. -/
def isList : Value → Bool
  | .list _ | .tuple _ => true
  | _ => false

/-- The fault of a leaf: its operator must be a word, and all but one operator need a field. -/
def leafFault? (node : Node) : Option NodeFault :=
  match node.relation with
  | .null => some (.noOperator node.field)
  | .operator known =>
    if node.field.isNull && known ≠ .references then some (.fieldMissing known.symbol) else none
  | .text word => if node.field.isNull then some (.fieldMissing word) else none
  | other => some (.operatorNotText other.typeName)

/-- The fault of a node that has exactly one shape. -/
def shapeFault? (node : Node) : Shape → Option NodeFault
  | .leaf => node.leafFault?
  | .all => if isList node.all then none else some (.childrenNotList .all)
  | .any => if isList node.any then none else some (.childrenNotList .any)
  | .not => none

/-- The one shape of a well-formed node, or what is wrong with the node. -/
def shape (node : Node) : Except NodeFault Shape :=
  match node.shapes with
  | [] => .error .noShape
  | [only] =>
    match node.shapeFault? only with
    | some fault => .error fault
    | none => .ok only
  | several => .error (.severalShapes several)

/-- The shape of a node at a position. -/
def shapeAt (node : Node) (position : Position) : Except Fault Shape :=
  node.shape.mapError (.malformed · position)

/-- The children of a node, read off the first of its combinators that is there. -/
def children (node : Node) : Except Fault (List Value) :=
  let walk (value : Value) : Except Fault (List Value) :=
    match value.elements? with
    | some items => .ok items
    | none => .error .mistyped
  if !node.all.isNull then walk node.all
  else if !node.any.isNull then walk node.any
  else if !node.negated.isNull then .ok [node.negated]
  else .ok []

end Node

namespace Value

mutual

/-- Whether a node is a conjunction that constrains nothing, whatever its other parts. -/
def alwaysTrue : Value → Except Fault Bool
  | .node _ _ _ all _ _ => if all.isNull then .ok false else childrenAlwaysTrue all
  | _ => .error .mistyped
termination_by structural input => input

/-- Whether every child in a container constrains nothing. -/
def childrenAlwaysTrue : Value → Except Fault Bool
  | .list items => everyAlwaysTrue items
  | .tuple items => everyAlwaysTrue items
  | .set _ items => everyAlwaysTrue items
  | other => if other.elements?.any List.isEmpty then .ok true else .error .mistyped
termination_by structural input => input

/-- Whether every child of a list constrains nothing; the first that does ends the search. -/
def everyAlwaysTrue : List Value → Except Fault Bool
  | [] => .ok true
  | item :: rest => do
    if ← alwaysTrue item then everyAlwaysTrue rest else return false
termination_by structural input => input

end

end Value

namespace Comparison

/-- The comparison that a value in the operator's place stands for. -/
def ofValue : Value → Comparison
  | .operator named => .known named
  | other =>
    match Operator.ofSymbol? other.display with
    | some named => .known named
    | none => .unknown other.display

end Comparison

namespace Condition

mutual

/-- Reads the condition that a node stands for, refusing malformed nodes and deep nesting. -/
def read (limit : DepthLimit) (depth : Nat) (position : Position) :
    Value → Except Fault Condition
  | .node field relation value conjuncts disjuncts negated => do
    Nesting.filter.checkDepth limit depth position
    match ← Node.shapeAt ⟨field, relation, value, conjuncts, disjuncts, negated⟩ position with
    | .leaf => return .leaf field (.ofValue relation) value
    | .all => return .all (← readChildren limit (depth + 1) position .all conjuncts)
    | .any => return .any (← readChildren limit (depth + 1) position .any disjuncts)
    | .not => return .not (← read limit (depth + 1) (position.down .negated) negated)
  | other => do
    Nesting.filter.checkDepth limit depth position
    throw (.malformed (.notNode other.typeName) position)
termination_by structural input => input

/-- Reads the children of a conjunction or disjunction. -/
def readChildren (limit : DepthLimit) (depth : Nat) (position : Position) (step : Nat → Step) :
    Value → Except Fault (List Condition)
  | .list items => readItems limit depth position step 0 items
  | .tuple items => readItems limit depth position step 0 items
  | _ => .error .mistyped
termination_by structural input => input

/-- Reads conditions one after the other, the first of them at `index`. -/
def readItems (limit : DepthLimit) (depth : Nat) (position : Position) (step : Nat → Step)
    (index : Nat) : List Value → Except Fault (List Condition)
  | [] => .ok []
  | item :: rest => do
    let condition ← read limit depth (position.down (step index)) item
    return condition :: (← readItems limit depth position step (index + 1) rest)
termination_by structural input => input

end

/-- Reads a list of conditions that stands at a root. -/
def readAll (limit : DepthLimit) (root : String) (items : List Value) :
    Except Fault (List Condition) :=
  readItems limit 1 (.top root) .item 0 items

end Condition

end ContentQuery
