import ContentQuery.Condition.Node
import ContentQuery.Context

/-! Projections: reading the map of output names, and how deep references are resolved in it. -/

namespace ContentQuery.Projection

/-- The first of some names under which a map has an entry, with that entry. -/
def firstOf (names : List String) (entries : List (Value × Value)) : Option Value :=
  names.findSome? fun name => Value.lookup? name entries

/-- The names under which a map gives the function of a computed field. -/
def functionKeys : List String := ["fn", "_fn"]

/-- The names under which a map asks for the expansion of a reference. -/
def expansionKeys : List String := ["expand", "_expand"]

/-- The arguments of a computed field: a list, a tuple, or a single value. -/
def argumentsOf (entries : List (Value × Value)) : List Value :=
  match Value.lookup? "args" entries with
  | none => []
  | some given =>
    -- What counts as false gives no arguments, a single zero included.
    if !given.isTruthy then []
    else
      match given with
      | .list items | .tuple items => items
      | single => [single]

/-- Lets pass what lies within the limit on nesting. -/
def checkDepth (limit : DepthLimit) (depth : Nat) (position : Position) : Compile Unit :=
  Compile.ofExcept (Nesting.projection.checkDepth limit depth position)

/-- The notice about a value that means nothing under an output name. -/
def unrecognised (name : String) (value : Value) : Compile (Option Projection) := do
  Compile.requireWritten value.canInspect
  Compile.degrade .invalidProjection
    s!"Unrecognised projection value for '{name}': {value.inspect}" (.text name) .null
  return none

/-- The notice about a key that is no output name. -/
def invalidKey (key : Value) : Compile (Option Projection) := do
  Compile.requireWritten key.canInspect
  Compile.remark .invalidProjection s!"Invalid projection key {key.inspect}"
  return none

mutual

/-- Reads a map of output names that lies at a depth; what counts as false has no fields. -/
def read (limit : DepthLimit) (depth : Nat) (position : Position) :
    Value → Compile (List Projection)
  | .map entries => do
    if entries.isEmpty then return []
    else
      checkDepth limit depth position
      readEntries limit depth position entries
  | other => do
    if !other.isTruthy then return []
    else
      checkDepth limit depth position
      Compile.refuse .mistyped
termination_by structural input => input

/-- Reads the entries of a map of output names, one after the other. -/
def readEntries (limit : DepthLimit) (depth : Nat) (position : Position) :
    List (Value × Value) → Compile (List Projection)
  | [] => pure []
  | (key, value) :: rest => do
    let field ←
      match key with
      | .text name =>
        if name.isEmpty then invalidKey key else readField limit depth position name value
      | _ => invalidKey key
    return field.toList ++ (← readEntries limit depth position rest)
termination_by structural input => input

/-- Reads what a projection does with one output name. -/
def readField (limit : DepthLimit) (depth : Nat) (position : Position) (name : String) :
    Value → Compile (Option Projection)
  | .projection item => pure (some item)
  | .bool true => pure (some (.included (.text name)))
  | .bool false => pure (some (.excluded (.text name)))
  | .text path => pure (some (.alias (.text name) (.text path)))
  | .map entries => do
    -- A function is looked for before an expansion, and both before fields.
    match firstOf functionKeys entries with
    | some function => do
      Compile.requireWritten function.canDisplay
      return some (.computed (.text name) (.text function.display) (argumentsOf entries))
    | none =>
      match firstOf expansionKeys entries with
      | some wanted =>
        -- An expansion that is declined leaves the field as it is.
        if !wanted.isTruthy then return some (.included (.text name))
        else if !((Value.lookup? "projection" entries).any Value.isTruthy) then
          return some (.resolved (.text name))
        else
          return some (.expanded (.text name)
            (← readExpansion limit (depth + 1) (position.down (.name name)) entries))
      | none =>
        if entries.isEmpty then return some (.included (.text name))
        else
          checkDepth limit (depth + 1) (position.down (.name name))
          return some (.nested (.text name)
            (← readEntries limit (depth + 1) (position.down (.name name)) entries))
  | other => unrecognised name other
termination_by structural input => input

/-- Reads the projection that the map of an expansion names. -/
def readExpansion (limit : DepthLimit) (depth : Nat) (position : Position) :
    List (Value × Value) → Compile (List Projection)
  | [] => pure []
  | (key, value) :: rest =>
    match key with
    | .text "projection" => read limit depth position value
    | _ => readExpansion limit depth position rest
termination_by structural input => input

end

/-- Reads the projection of a query. -/
def readTop (limit : DepthLimit) (value : Value) : Compile (List Projection) :=
  read limit 1 (.top "projection") value

mutual

/-- The longest chain of expansions inside one projection. -/
def expansionDepth : Projection → Nat
  | .resolved _ => 1
  | .expanded _ fields => 1 + deepest fields
  -- Only expansions resolve a reference; a nested projection stays in its document.
  | .nested _ fields => deepest fields
  | .included _ | .excluded _ | .alias _ _ | .computed _ _ _ | .stray _ => 0
termination_by structural input => input

/-- The longest chain of expansions inside the projections of a list. -/
def deepest : List Projection → Nat
  | [] => 0
  | item :: rest => max (expansionDepth item) (deepest rest)
termination_by structural input => input

end

mutual

/-- Whether every field below a projection is a projection; filter nodes are passed over. -/
def isSound : Projection → Bool
  | .nested _ fields => areSound fields
  | .expanded _ fields => areSound fields
  | .stray value => (Node.ofValue? value).isSome
  | .included _ | .excluded _ | .alias _ _ | .computed _ _ _ | .resolved _ => true
termination_by structural input => input

/-- Whether every projection of a list is sound. -/
def areSound : List Projection → Bool
  | [] => true
  | item :: rest => isSound item && areSound rest
termination_by structural input => input

end

/-- The longest chain of expansions in projections whose fields are projections throughout. -/
def measure (fields : List Projection) : Except Fault Nat :=
  if areSound fields then .ok (deepest fields) else .error .mistyped

end ContentQuery.Projection
