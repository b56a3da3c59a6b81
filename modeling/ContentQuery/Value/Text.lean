import ContentQuery.Binary64.Text
import ContentQuery.Text.Numeral
import ContentQuery.Text.Quoted
import ContentQuery.Value.Basic

/-!
How messages name a value's kind, show it plainly, and show it so that its kind can be told. Both
forms are those of values whose integers can be written, which is asked for apart.
-/

namespace ContentQuery

namespace Date

/-- The parts of a date as messages list them. -/
def inspect (date : Date) : String :=
  s!"datetime.date({date.year}, {date.month}, {date.day})"

end Date

namespace Offset

/-- The parts of a duration that are not zero, as messages list them. -/
def inspectDuration (microseconds : Int) : String :=
  let day := microseconds.fdiv 86400000000
  let rest := microseconds.fmod 86400000000
  let second := rest / 1000000
  let fraction := rest % 1000000
  let part (name : String) (value : Int) : List String :=
    if value == 0 then [] else [name ++ "=" ++ toString value]
  let parts := part "days" day ++ part "seconds" second ++ part "microseconds" fraction
  "datetime.timedelta(" ++ (if parts.isEmpty then "0" else ", ".intercalate parts) ++ ")"

/-- An offset as messages show it. -/
def inspect (offset : Offset) : String :=
  if offset.microseconds == 0 then "datetime.timezone.utc"
  else "datetime.timezone(" ++ inspectDuration offset.microseconds ++ ")"

/-- An offset as the last argument in the text of a time. -/
def inspectLast (offset : Option Offset) : String :=
  (offset.map fun known => ", tzinfo=" ++ known.inspect).getD ""

end Offset

namespace Clock

/-- The parts of a time of day as messages list them, without zeros at the end. -/
def inspectParts (clock : Clock) : String :=
  let short := s!"{clock.hour}, {clock.minute}"
  if clock.microsecond != 0 then s!"{short}, {clock.second}, {clock.microsecond}"
  else if clock.second != 0 then s!"{short}, {clock.second}"
  else short

end Clock

namespace Time

/-- A time as messages show it. -/
def inspect (time : Time) : String :=
  "datetime.time(" ++ time.clock.inspectParts ++ Offset.inspectLast time.offset ++ ")"

end Time

namespace Moment

/-- A moment as messages show it. -/
def inspect (moment : Moment) : String :=
  let date := moment.date
  s!"datetime.datetime({date.year}, {date.month}, {date.day}, " ++
    moment.time.clock.inspectParts ++ Offset.inspectLast moment.time.offset ++ ")"

end Moment

namespace SortKey

/-- A sort key as messages show it. -/
def inspect (key : SortKey) : String :=
  "OrderBy(field=" ++ Text.quote key.field ++ ", direction=" ++ Text.quote key.direction.keyword
    ++ ")"

end SortKey

namespace Value

mutual

/-- The kind of a value as messages name it. -/
def typeName : Value → String
  | .null => "NoneType"
  | .bool _ => "bool"
  | .int _ => "int"
  | .float _ => "float"
  | .text _ => "str"
  | .bytes _ => "bytes"
  | .uuid _ => "UUID"
  | .moment _ => "datetime"
  | .date _ => "date"
  | .time _ => "time"
  | .list _ => "list"
  | .tuple _ => "tuple"
  | .set frozen _ => if frozen then "frozenset" else "set"
  | .map _ => "dict"
  | .operator _ => "FilterOperator"
  | .member _ => "E"
  | .foreign => "Opaque"
  | .node .. => "FilterCondition"
  | .sortKey _ => "OrderBy"
  | .projection item => projectionKind item
termination_by structural input => input

/-- The kind of a projection as messages name it; a stray value keeps its own. -/
def projectionKind : Projection → String
  | .included _ => "Include"
  | .excluded _ => "Exclude"
  | .nested _ _ => "Nested"
  | .alias _ _ => "Alias"
  | .computed _ _ _ => "Computed"
  | .resolved _ => "Expand"
  | .expanded _ _ => "Expand"
  | .stray value => typeName value
termination_by structural input => input

end

/-- The parts of a tuple, where a single part is followed by a comma. -/
def inspectTuple (parts : List String) : String :=
  match parts with
  | [part] => "(" ++ part ++ ",)"
  | _ => "(" ++ ", ".intercalate parts ++ ")"

/-- The parts of a set, which have braces around them unless there are none. -/
def inspectSet (frozen : Bool) (parts : List String) : String :=
  let body := if parts.isEmpty then "" else "\x7b" ++ ", ".intercalate parts ++ "\x7d"
  if frozen then "frozenset(" ++ body ++ ")"
  else if parts.isEmpty then "set()"
  else body

/-- The plain form of a value whose telling form is given: only some kinds have one of their own. -/
def plain (inspected : String) : Value → String
  | .text value => value
  | .uuid value => value.text
  | .moment value => value.isoWith " "
  | .date value => value.iso
  | .time value => value.iso
  | .operator value => "FilterOperator." ++ value.label
  | .member _ => "E.X"
  | _ => inspected

/-- Whether the plain form of a value can be written, given whether its telling form can. -/
def canPlain (inspectable : Bool) : Value → Bool
  -- The plain form of a member leaves its value out.
  | .member _ => true
  | _ => inspectable

mutual

/-- Whether the telling form of a value can be written: no integer in it has too many digits. -/
def canInspect : Value → Bool
  | .int value => Text.isWritable value
  | .list items => canInspectAll items
  | .tuple items => canInspectAll items
  | .set _ items => canInspectAll items
  | .map entries => canInspectEntries entries
  | .member value => canInspect value
  | .node field relation value all any negated =>
    if !all.isNull then canPlain (canInspect all) all
    else if !any.isNull then canPlain (canInspect any) any
    else if !negated.isNull then canPlain (canInspect negated) negated
    else canPlain (canInspect field) field && canPlain (canInspect relation) relation
      && canInspect value
  | .projection item => canInspectProjection item
  | _ => true
termination_by structural input => input

/-- Whether the telling form of every value of a list can be written. -/
def canInspectAll : List Value → Bool
  | [] => true
  | item :: rest => canInspect item && canInspectAll rest
termination_by structural input => input

/-- Whether the telling forms of the entries of a map can be written. -/
def canInspectEntries : List (Value × Value) → Bool
  | [] => true
  | (key, value) :: rest => canInspect key && canInspect value && canInspectEntries rest
termination_by structural input => input

/-- Whether the telling form of a projection can be written. -/
def canInspectProjection : Projection → Bool
  | .included name => canInspect name
  | .excluded name => canInspect name
  | .nested name fields => canInspect name && canInspectFields fields
  | .alias name path => canInspect name && canInspect path
  | .computed name function arguments =>
    canInspect name && canInspect function && canInspectAll arguments
  | .resolved name => canInspect name
  | .expanded name fields => canInspect name && canInspectFields fields
  | .stray value => canInspect value
termination_by structural input => input

/-- Whether the telling form of every projection of a list can be written. -/
def canInspectFields : List Projection → Bool
  | [] => true
  | item :: rest => canInspectProjection item && canInspectFields rest
termination_by structural input => input

end

mutual

/--
The form of a value that tells its kind: texts are quoted, containers show their parts so. Whether
it can be written, which integers with too many digits cannot, is asked of `canInspect`.
-/
def inspect : Value → String
  | .null => "None"
  | .bool value => if value then "True" else "False"
  | .int value => toString value
  | .float value => value.text
  | .text value => Text.quote value
  | .bytes value => Text.quoteBytes value
  | .uuid value => "UUID('" ++ value.text ++ "')"
  | .moment value => value.inspect
  | .date value => value.inspect
  | .time value => value.inspect
  | .list items => "[" ++ ", ".intercalate (inspectAll items) ++ "]"
  | .tuple items => inspectTuple (inspectAll items)
  | .set frozen items => inspectSet frozen (inspectAll items)
  | .map entries => "\x7b" ++ ", ".intercalate (inspectEntries entries) ++ "\x7d"
  | .operator value => "<FilterOperator." ++ value.label ++ ": '" ++ value.symbol ++ "'>"
  | .member value => "<E.X: " ++ inspect value ++ ">"
  | .foreign => "<Opaque>"
  | .node field relation value all any negated =>
    if !all.isNull then "and(" ++ plain (inspect all) all ++ ")"
    else if !any.isNull then "or(" ++ plain (inspect any) any ++ ")"
    else if !negated.isNull then "not(" ++ plain (inspect negated) negated ++ ")"
    else
      let name :=
        match relation with
        | .operator known => known.symbol
        | other => plain (inspect relation) other
      plain (inspect field) field ++ " " ++ name ++ " " ++ inspect value
  | .sortKey key => key.inspect
  | .projection item => inspectProjection item
termination_by structural input => input

/-- The telling forms of values. -/
def inspectAll : List Value → List String
  | [] => []
  | item :: rest => inspect item :: inspectAll rest
termination_by structural input => input

/-- The telling forms of the entries of a map. -/
def inspectEntries : List (Value × Value) → List String
  | [] => []
  | (key, value) :: rest => (inspect key ++ ": " ++ inspect value) :: inspectEntries rest
termination_by structural input => input

/-- The telling form of a projection. -/
def inspectProjection : Projection → String
  | .included name => "Include(name=" ++ inspect name ++ ")"
  | .excluded name => "Exclude(name=" ++ inspect name ++ ")"
  | .nested name fields =>
    "Nested(name=" ++ inspect name ++ ", fields=" ++ inspectTuple (inspectFields fields) ++ ")"
  | .alias name path => "Alias(name=" ++ inspect name ++ ", path=" ++ inspect path ++ ")"
  | .computed name function arguments =>
    "Computed(name=" ++ inspect name ++ ", fn=" ++ inspect function ++ ", args="
      ++ inspectTuple (inspectAll arguments) ++ ")"
  | .resolved name => "Expand(name=" ++ inspect name ++ ", fields=None)"
  | .expanded name fields =>
    "Expand(name=" ++ inspect name ++ ", fields=" ++ inspectTuple (inspectFields fields) ++ ")"
  | .stray value => inspect value
termination_by structural input => input

/-- The telling forms of projections. -/
def inspectFields : List Projection → List String
  | [] => []
  | item :: rest => inspectProjection item :: inspectFields rest
termination_by structural input => input

end

/-- The plain form of a value: a text is itself. It can be written where `canDisplay` says so. -/
def display (value : Value) : String :=
  plain value.inspect value

/-- Whether the plain form of a value can be written. -/
def canDisplay (value : Value) : Bool :=
  canPlain value.canInspect value

/-- The name of what stands in the operator's place of a filter node. -/
def operatorName : Value → String
  | .operator known => known.symbol
  | other => other.display

end Value

end ContentQuery
