import ContentQuery.Value.Basic

/-! Equality of values across kinds, and which values may be members of a set. -/

namespace ContentQuery

namespace Value

/-- Truth values count as the integers one and zero, and numbers compare by what they are worth. -/
def sameNumber? : Value → Value → Option Bool
  | .float left, .float right => some (left.sameNumber right)
  | .float left, .int right => some (left.sameInt right)
  | .float left, .bool right => some (left.sameInt right.toNat)
  | .int left, .float right => some (right.sameInt left)
  | .bool left, .float right => some (right.sameInt left.toNat)
  | .int left, .int right => some (left == right)
  | .int left, .bool right => some (left == right.toNat)
  | .bool left, .int right => some (right == left.toNat)
  | .bool left, .bool right => some (left == right)
  | _, _ => none

/-- Equality of the values that hold no other values. -/
def sameAtom (left right : Value) : Bool :=
  match left, right with
  | .null, .null => true
  | .text left, .text right => left == right
  | .bytes left, .bytes right => left == right
  | .uuid left, .uuid right => left = right
  | .moment left, .moment right => left.same right
  | .date left, .date right => left = right
  | .time left, .time right => left.same right
  | .operator left, .operator right => left = right
  | .sortKey left, .sortKey right => left = right
  | _, _ => (sameNumber? left right).getD false

mutual

/--
Equality: containers compare their parts, sets and maps in any order. Members of enumerations and
foreign objects equal nothing: such an object equals itself alone, and each of them that stands in a
query is an object of its own.
-/
def same : Value → Value → Bool
  | .list left, .list right => sameAll left right
  | .tuple left, .tuple right => sameAll left right
  | .set _ left, .set _ right => left.length == right.length && within left right
  | .map left, .map right => left.length == right.length && entriesWithin left right
  | .node field relation value all any negated,
      .node field' relation' value' all' any' negated' =>
    same field field' && same relation relation' && same value value' && same all all'
      && same any any' && same negated negated'
  | .projection left, .projection right => sameProjection left right
  | left, right => sameAtom left right
termination_by structural input => input

/-- Equality of lists, item by item. -/
def sameAll : List Value → List Value → Bool
  | [], [] => true
  | left :: lefts, right :: rights => same left right && sameAll lefts rights
  | _, _ => false
termination_by structural input => input

/-- Whether each value of a list has an equal in another list. -/
def within : List Value → List Value → Bool
  | [], _ => true
  | left :: lefts, rights => rights.any (same left) && within lefts rights
termination_by structural input => input

/-- Whether each entry of a list has an equal key with an equal value in another list. -/
def entriesWithin : List (Value × Value) → List (Value × Value) → Bool
  | [], _ => true
  | (key, value) :: lefts, rights =>
    rights.any (fun entry => same key entry.1 && same value entry.2) && entriesWithin lefts rights
termination_by structural input => input

/-- Equality of projections: the same kind with equal parts. -/
def sameProjection : Projection → Projection → Bool
  | .included left, .included right => same left right
  | .excluded left, .excluded right => same left right
  | .nested left lefts, .nested right rights => same left right && sameFields lefts rights
  | .alias left path, .alias right path' => same left right && same path path'
  | .computed left function arguments, .computed right function' arguments' =>
    same left right && same function function' && sameAll arguments arguments'
  | .resolved left, .resolved right => same left right
  | .expanded left lefts, .expanded right rights => same left right && sameFields lefts rights
  | .stray left, .stray right => same left right
  | _, _ => false
termination_by structural input => input

/-- Equality of lists of projections, item by item. -/
def sameFields : List Projection → List Projection → Bool
  | [], [] => true
  | left :: lefts, right :: rights => sameProjection left right && sameFields lefts rights
  | _, _ => false
termination_by structural input => input

end

instance : BEq Value := ⟨same⟩

mutual

/-- Values that cannot change may be members of a set or keys of a map. -/
def isHashable : Value → Bool
  | .list _ | .map _ | .node .. | .sortKey _ => false
  | .set frozen _ => frozen
  | .tuple items => allHashable items
  | .projection item => hashableProjection item
  | _ => true
termination_by structural input => input

/-- Whether every value of a list may be a member of a set. -/
def allHashable : List Value → Bool
  | [] => true
  | item :: rest => isHashable item && allHashable rest
termination_by structural input => input

/-- Whether every part of a projection may be a member of a set. -/
def hashableProjection : Projection → Bool
  | .nested name fields => isHashable name && hashableFields fields
  | .expanded name fields => isHashable name && hashableFields fields
  | .alias name path => isHashable name && isHashable path
  | .computed name function arguments =>
    isHashable name && isHashable function && allHashable arguments
  | .included name => isHashable name
  | .excluded name => isHashable name
  | .resolved name => isHashable name
  | .stray value => isHashable value
termination_by structural input => input

/-- Whether every projection of a list may be a member of a set. -/
def hashableFields : List Projection → Bool
  | [] => true
  | item :: rest => hashableProjection item && hashableFields rest
termination_by structural input => input

end

/-- A set can be looked up like a frozen one with the same items. -/
def canBeLookedUp : Value → Bool
  | .set _ _ => true
  | other => other.isHashable

/-- The set of given items, of which equal ones count once. -/
def setOf? (frozen : Bool) (items : List Value) : Option Value :=
  if allHashable items then
    some (.set frozen (items.foldl
      (fun known item => if known.contains item then known else known ++ [item]) []))
  else none

/-- The operator whose symbol a value is. -/
def operator? : Value → Option Operator
  | .text symbol => Operator.ofSymbol? symbol
  | _ => none

end Value

end ContentQuery
