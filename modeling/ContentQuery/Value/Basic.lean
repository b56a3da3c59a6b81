import ContentQuery.Binary64
import ContentQuery.Calendar.Moment
import ContentQuery.Operator
import ContentQuery.Uuid

/-! The values a query is described with: literals, containers, nodes, sort keys, projections. -/

namespace ContentQuery

/-- The direction of a sort. -/
inductive Direction where
  | ascending
  | descending
  deriving DecidableEq, Repr

namespace Direction

/-- The keyword of a direction. -/
def keyword : Direction → String
  | .ascending => "asc"
  | .descending => "desc"

end Direction

/-- A field to sort by and its direction. -/
structure SortKey where
  field : String
  direction : Direction
  deriving DecidableEq, Repr

mutual

/-- A value of any kind that a caller may put into a query. -/
inductive Value where
  | null
  | bool (value : Bool)
  | int (value : Int)
  | float (value : Binary64)
  | text (value : String)
  | bytes (value : List UInt8)
  | uuid (value : Uuid)
  | moment (value : Moment)
  | date (value : Date)
  | time (value : Time)
  | list (items : List Value)
  | tuple (items : List Value)
  /-- The items stand in the order in which the set is enumerated. -/
  | set (frozen : Bool) (items : List Value)
  | map (entries : List (Value × Value))
  | operator (value : Operator)
  /-- The only member of an enumeration that mixes in no type, another enumeration each time. The
  members of one that mixes in a type are values of that type, and stand here as these. -/
  | member (value : Value)
  /-- An object of a kind that no target knows. -/
  | foreign
  /-- A filter node as it was given, whatever its shape; a part left out is null. -/
  | node (field relation value all any negated : Value)
  | sortKey (key : SortKey)
  | projection (item : Projection)

/-- What a projection does with one output name, which is a text unless a caller built the item. -/
inductive Projection where
  | included (name : Value)
  | excluded (name : Value)
  | nested (name : Value) (fields : List Projection)
  | alias (name : Value) (path : Value)
  | computed (name : Value) (function : Value) (arguments : List Value)
  /-- A reference that is resolved as a whole. -/
  | resolved (name : Value)
  /-- A reference that is resolved to some of its fields. -/
  | expanded (name : Value) (fields : List Projection)
  /-- A value that a caller put among the fields of an item, and that is no projection. -/
  | stray (value : Value)

end

instance : Inhabited Value := ⟨.null⟩

instance : Inhabited Projection := ⟨.included .null⟩

namespace Value

/-- Whether a value is null. -/
def isNull : Value → Bool
  | .null => true
  | _ => false

/-- Null, false, zero and what is empty count as false; everything else counts as true. -/
def isTruthy : Value → Bool
  | .null => false
  | .bool value => value
  | .int value => value != 0
  | .float value => !value.isZero
  | .text value => !value.isEmpty
  | .bytes value => !value.isEmpty
  | .list items | .tuple items | .set _ items => !items.isEmpty
  | .map entries => !entries.isEmpty
  | _ => true

/-- The items of a list, a tuple or a set. -/
def items? : Value → Option (List Value)
  | .list items | .tuple items | .set _ items => some items
  | _ => none

/-- What a value yields when it is walked over: items, characters, keys or bytes. -/
def elements? : Value → Option (List Value)
  | .list items | .tuple items | .set _ items => some items
  | .text value => some (value.toList.map fun c => .text (String.singleton c))
  | .bytes value => some (value.map fun byte => .int byte.toNat)
  | .map entries => some (entries.map Prod.fst)
  | _ => none

/-- The entry of a map under a name. -/
def lookup? (name : String) : List (Value × Value) → Option Value
  | [] => none
  | (.text key, value) :: rest => if key = name then some value else lookup? name rest
  | _ :: rest => lookup? name rest

/-- The value itself where it counts as true. -/
def orElse (value fallback : Value) : Value :=
  if value.isTruthy then value else fallback

/-- What stands in the operator's place of a filter node: a symbol stands for its operator. -/
def relationOf : Value → Value
  | .text symbol => (Operator.ofSymbol? symbol).elim (.text symbol) .operator
  | other => other

/-- A filter node that compares a field with a literal. -/
def leaf (field relation value : Value) : Value :=
  .node field relation.relationOf value .null .null .null

end Value

namespace Projection

/-- The projection that a value among the fields of an item is. -/
def ofField : Value → Projection
  | .projection item => item
  | other => .stray other

/-- The output name of a projection, or null for a stray value. -/
def name : Projection → Value
  | .included name | .excluded name | .nested name _ | .alias name _ | .computed name _ _
  | .resolved name | .expanded name _ => name
  | .stray _ => .null

/-- Whether a projection resolves a reference. -/
def isExpansion : Projection → Bool
  | .resolved _ | .expanded _ _ => true
  | _ => false

end Projection

end ContentQuery
