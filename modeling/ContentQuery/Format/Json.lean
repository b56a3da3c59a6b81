import ContentQuery.Format.Fault

/-! The JSON form of literals: tuples become lists, sets sorted lists, scalars plain values. -/

namespace ContentQuery.Value

/-- The deepest level at which a JSON form may hold a value. -/
def maxJsonDepth : Nat := 32

mutual

/-- The JSON form of a value; `opened` tells whether it was taken out of an enumeration already. -/
def jsonForm (depth : Nat) (opened : Bool) : Value → Except FormatFault Value
  | .null => .ok .null
  | .bool value => .ok (.bool value)
  | .int value => .ok (.int value)
  | .text value => .ok (.text value)
  | .float value => if value.isFinite then .ok (.float value) else .error (.notFinite value)
  | .uuid value => .ok (.text value.text)
  | .moment value => .ok (.text value.iso)
  | .date value => .ok (.text value.iso)
  | .time value => .ok (.text value.iso)
  -- An enumeration stands for its value once, and not for a member inside it.
  | .operator value =>
    if opened then .error (.notSerializable (operator value).typeName) else .ok (.text value.symbol)
  | .member value =>
    if opened then .error (.notSerializable (member value).typeName) else jsonForm depth true value
  | .list items => return .list (← jsonItems (depth + 1) items)
  | .tuple items => return .list (← jsonItems (depth + 1) items)
  -- A set has no order of its own, so that its forms are sorted.
  | .set frozen items => do
    let forms ← jsonItems (depth + 1) items
    checkSortable (.set frozen forms)
    return .list (sorted forms)
  | .map entries => return .map (← jsonEntries (depth + 1) entries)
  | .bytes value => .error (.notSerializable (bytes value).typeName)
  | .foreign => .error (.notSerializable foreign.typeName)
  | .node field relation value all any negated =>
    .error (.notSerializable (node field relation value all any negated).typeName)
  | .sortKey key => .error (.notSerializable (sortKey key).typeName)
  | .projection item => .error (.notSerializable (projection item).typeName)
termination_by structural input => input

/-- The JSON forms of the items of a container, all of them at one depth. -/
def jsonItems (depth : Nat) : List Value → Except FormatFault (List Value)
  | [] => .ok []
  | item :: rest =>
    -- Empty containers are not looked into, at whatever depth they lie.
    if maxJsonDepth < depth then .error .tooDeep
    else return (← jsonForm depth false item) :: (← jsonItems depth rest)
termination_by structural input => input

/-- The JSON forms of the entries of a map, whose keys have to be texts. -/
def jsonEntries (depth : Nat) :
    List (Value × Value) → Except FormatFault (List (Value × Value))
  | [] => .ok []
  | (key, value) :: rest =>
    match key with
    | .text name =>
      if maxJsonDepth < depth then .error .tooDeep
      else return (.text name, ← jsonForm depth false value) :: (← jsonEntries depth rest)
    | other => .error (if other.canInspect then .keyNotText other else .unwritable)
termination_by structural input => input

end

/-- The JSON form of a literal. -/
def toJson (value : Value) : Except FormatFault Value :=
  jsonForm 0 false value

end ContentQuery.Value
