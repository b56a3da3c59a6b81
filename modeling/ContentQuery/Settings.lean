import ContentQuery.Context
import ContentQuery.Format.Fault
import ContentQuery.Query

/-! The settings of a compiler: defaults, limits and the conditions that apply to every query. -/

namespace ContentQuery

/-- What applies to every query: an expression in the target's own words, or conditions. -/
inductive GlobalFilter where
  | raw (text : String)
  /-- The nodes as they were given, and the conditions that they stand for. -/
  | conditions (nodes : List Value) (parsed : List Condition)

namespace GlobalFilter

/-- The conditions that apply to every query. -/
def conditionList : GlobalFilter → List Condition
  | .raw _ => []
  | .conditions _ parsed => parsed

/-- A global filter as a value. -/
def toValue : GlobalFilter → Value
  | .raw words => .text words
  | .conditions nodes _ => .list nodes

/-- Reads conditions of which some may be maps. -/
def ofItems (limit : DepthLimit) (items : List Value) : Except Fault GlobalFilter := do
  let nodes ← items.mapM fun item =>
    match item with
    | .map _ => Node.ofDictionary limit 1 (.top "filter") item
    | other => .ok other
  return .conditions nodes (← Condition.readAll limit "global_filter" nodes)

/-- Reads a global filter; only some targets take an expression of their own. -/
def read (target : Target) (limit : DepthLimit) : Value → Except Fault GlobalFilter
  | .null => .ok (.conditions [] [])
  | .text words =>
    if target = .groq then .ok (.raw words) else .error (.invalid (.rawFilter target))
  | .map entries => ofItems limit [.map entries]
  | .node field relation value all any negated =>
    ofItems limit [.node field relation value all any negated]
  | other =>
    match other.elements? with
    | some items => ofItems limit items
    | none => .error .mistyped

end GlobalFilter

/-- The settings that every compiler has. -/
structure Settings where
  defaultLocale : Value
  fallbackLocales : List Value
  defaultLimit : Option Nat
  maxResolveDepth : Nat
  includeDrafts : Value
  strict : Value
  maxDepth : Nat
  globalFilter : GlobalFilter

namespace Settings

/-- The names of the options that every compiler takes. -/
def optionNames : List String :=
  ["default_locale", "fallback_locales", "default_limit", "max_resolve_depth", "global_filter",
    "include_drafts", "strict", "max_depth"]

/-- The number of results that a target gives where neither query nor compiler says. -/
def standardLimit : Target → Option Nat
  | .groq => none
  | .contentful => some 100
  | .qdrant => some 10

/-- The depth to which filters may be nested and references resolved where nothing else is said. -/
def standardDepth : Nat := 10

/-- Reads a natural number that must not be null. -/
def readNatural (name : String) (value : Value) : Except Fault Nat := do
  match ← value.readNatural? name with
  | some count => return count
  | none => throw (.invalid (.notNatural name value))

/-- The entry of a map of options, or what counts where there is none. -/
def optionOr (options : List (Value × Value)) (name : String) (standard : Value) : Value :=
  (Value.lookup? name options).getD standard

/-- The settings that a map of options leads to. -/
def ofOptions (target : Target) (options : List (Value × Value)) : Except Fault Settings := do
  let limit ← (optionOr options "default_limit" .null).readNatural? "default_limit"
  let standard := Value.int standardDepth
  let maxResolveDepth ←
    readNatural "max_resolve_depth" (optionOr options "max_resolve_depth" standard)
  let maxDepth ← readNatural "max_depth" (optionOr options "max_depth" standard)
  if maxDepth < 1 then throw (.invalid .depthBelowOne)
  let fallbackLocales ← (optionOr options "fallback_locales" .null).elementsOrNone
  let globalFilter ←
    GlobalFilter.read target (.levels maxDepth) (optionOr options "global_filter" .null)
  return {
    fallbackLocales, maxResolveDepth, maxDepth, globalFilter
    defaultLocale := optionOr options "default_locale" .null
    defaultLimit := limit.or (standardLimit target)
    includeDrafts := optionOr options "include_drafts" .null
    strict := optionOr options "strict" (.bool false) }

/-- The limit on the nesting of filters and projections. -/
def depthLimit (settings : Settings) : DepthLimit :=
  .levels settings.maxDepth

/-- Drafts are left out only where the query, or else the compiler, says so with plain false. -/
def excludesDrafts (settings : Settings) (query : Query) : Bool :=
  -- What the query says comes before what the compiler says.
  let policy :=
    if query.includeDrafts.isNull then settings.includeDrafts else query.includeDrafts
  match policy with
  | .bool false => true
  | _ => false

/-- The window of results that a query asks for. -/
def page (settings : Settings) (query : Query) : Page Nat :=
  query.page settings.defaultLimit

/-- The depth granted to a query's request, with a notice where the limit cut it. -/
def resolveDepth (settings : Settings) (query : Query) : Compile Nat := do
  let wanted := query.resolve.levelCount
  -- The limit cuts the request and says so.
  if settings.maxResolveDepth < wanted then
    Compile.requireWritten (Text.isWritable wanted && Text.isWritable settings.maxResolveDepth)
    Compile.remark .resolveDepthClamped
      s!"Reference depth {query.resolve.display} clamped to {settings.maxResolveDepth}"
    return settings.maxResolveDepth
  else return wanted.toNat

/-- The depth granted to a request or to the expansions of a projection, whichever asks for more. -/
def resolveWith (settings : Settings) (query : Query) (expansions : Nat) : Compile Nat := do
  let depth ← settings.resolveDepth query
  if expansions ≤ depth then return depth
  if settings.maxResolveDepth < expansions then
    Compile.remark .resolveDepthClamped
      s!"Expansion depth {expansions} clamped to {settings.maxResolveDepth}"
  return min expansions settings.maxResolveDepth

end Settings

/-- What a target makes of a query. -/
structure Compiled (Native Argument : Type) where
  query : Native
  parameters : OrderedMap Value Argument
  notices : List Notice

namespace Compiled

/-- Runs a compilation; a strict compiler refuses a query that gave any notice. -/
def run {Native Argument : Type} (target : Target) (settings : Settings)
    (compile : Compile (Native × OrderedMap Value Argument)) :
    Except Fault (Compiled Native Argument) := do
  let ((query, parameters), context) ← compile .empty
  if settings.strict.isTruthy && !context.notices.isEmpty then
    throw (.degraded target context.notices)
  return ⟨query, parameters, context.notices⟩

end Compiled

/-- The notice about an operator that a target does not have. -/
def noteUnsupported (target : Target) (field : Value) (comparison : Comparison) : Convert Unit :=
  Convert.degrade .unsupportedOperator
    s!"Operator '{comparison.word}' is not supported by {target.name}; condition dropped"
    field (.text comparison.word)

/-- The notice about a literal that a target cannot carry. -/
def noteInvalidValue (field : Value) (operator : Operator) (fault : FormatFault) : Convert Unit :=
  Convert.degrade .invalidValue
    s!"Value for '{field.display}' cannot be compiled: {fault.message}; condition dropped"
    field (.text operator.symbol)

/-- Drops a leaf whose literal a target cannot carry, unless the literal failed in another way. -/
def dropInvalidValue (field : Value) (operator : Operator) (fault : FormatFault) : Compile Unit :=
  if fault.isUnwritable then Compile.refuse .unwritable
  else (noteInvalidValue field operator fault).lift

/-- Adds the parameters that are passed through, except those whose keys are taken. -/
def passThrough {Argument : Type} (taken : Value → Bool) (what : String)
    (wrap : Value → Argument) :
    List (Value × Value) → OrderedMap Value Argument → Compile (OrderedMap Value Argument)
  | [], parameters => pure parameters
  | (key, value) :: rest, parameters => do
    if taken key || parameters.contains key then
      Compile.remark .parameterCollision
        s!"Passthrough parameter '{key.display}' collides with a compiled {what}; ignored"
      passThrough taken what wrap rest parameters
    else passThrough taken what wrap rest (parameters.insert key (wrap value))

end ContentQuery
