import ContentQuery.Value.Arithmetic

/-! Requests to resolve references to a depth, and what a limit grants of them. -/

namespace ContentQuery

/-- A request to resolve references. -/
inductive DepthRequest where
  | unset
  | flag (value : Bool)
  | levels (count : Int)
  deriving DecidableEq, Repr

namespace DepthRequest

/-- The request that a value makes. -/
def ofValue : Value → Except Fault DepthRequest
  | .null => .ok .unset
  | .bool value => .ok (.flag value)
  | other => return .levels (← other.toInteger)

/-- The number of levels that a request asks for; a flag asks for one. -/
def levelCount : DepthRequest → Int
  | .unset | .flag false => 0
  | .flag true => 1
  | .levels count => count

/-- Whether a request asks for no levels by name, so that no limit is looked at. -/
def isIdle : DepthRequest → Bool
  | .unset | .flag false => true
  | _ => false

/-- What a limit grants of a request, and whether it cut some of it off. -/
def grant (request : DepthRequest) (limit : DepthLimit) : Except Fault (DepthLimit × Bool) :=
  let wanted := DepthLimit.levels request.levelCount
  if request.isIdle then .ok (wanted, false)
  else
    match limit.exceeded? request.levelCount with
    | some true => .ok (limit, true)
    | some false => .ok (wanted, false)
    | none => .error .mistyped

/-- A request as messages show it. -/
def display : DepthRequest → String
  | .unset => "None"
  | .flag value => if value then "True" else "False"
  | .levels count => toString count

/-- Whether a request is there and asks for nothing. -/
def declines : DepthRequest → Bool
  | .flag false | .levels 0 => true
  | _ => false

end DepthRequest

end ContentQuery
