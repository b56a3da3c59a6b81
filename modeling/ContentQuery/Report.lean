import ContentQuery.Fault

/-! Reports of faults, made from what a caller gives: a message, a position, a context. -/

namespace ContentQuery

/-- A fault as it is reported: its family, a message and what was given beside it. -/
structure Report where
  family : Family
  message : Value
  /-- Where in the query the fault stands, in the families that say so. -/
  position : Value
  context : Value

namespace Report

/-- The report of a fault whose position a caller gives; what counts as false is no position. -/
def located (family : Family) (message position : Value) : Report :=
  let context := if position.isTruthy then [(Value.text "path", position)] else []
  ⟨family, message, position, .map context⟩

/-- The report that a target refused a query for the notices it gave, of which there were none. -/
def withoutNotices (target : Value) : Report :=
  ⟨.degraded, .text s!"{target.display} query degraded (0 notice(s): )", .null,
    .map [(.text "notices", .list [])]⟩

/-- The report made from arguments: a message, and then a position, a context or notices. -/
def ofArguments (family : Family) (arguments : List Value) : Except Fault Report :=
  match family, arguments with
  | .degraded, [target, notices] =>
    -- No value is a notice, so that only an empty container holds notices.
    if notices.elements?.any List.isEmpty then .ok (withoutNotices target) else .error .mistyped
  | .degraded, _ => .error .mistyped
  | _, [message] => .ok (given message .null)
  | _, [message, argument] => .ok (given message argument)
  | _, _ => .error .mistyped
where
  /-- The report made from a message and one argument, which may be null. -/
  given (message argument : Value) : Report :=
    if family.hasPosition then located family message argument
    else ⟨family, message, .null, argument.orElse (.map [])⟩

/-- The report as a map. -/
def toMap (report : Report) : Value :=
  .map [(.text "error", .text report.family.name), (.text "message", report.message),
    (.text "context", report.context)]

end Report

/-- The report of a fault of a filter node at a position in words of the caller. -/
def NodeFault.report (fault : NodeFault) (position : Value) : Report :=
  .located .invalidFilter (.text fault.message) position

end ContentQuery
