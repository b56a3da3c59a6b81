import ContentQuery.Projection
import ContentQuery.Qdrant.Filter

/-! Scrolls over points: a filter, and the options that shape the answer. -/

namespace ContentQuery.Qdrant

/-- An option of a scroll. -/
inductive Argument where
  | value (value : Value)
  /-- The payload keys that are delivered. -/
  | including (keys : List String)
  /-- The payload keys that are not delivered. -/
  | excluding (keys : List String)
  | order (key : String) (direction : Direction)

/-- The payload keys that a projection names. -/
structure KeyLists where
  included : List String
  excluded : List String

/-- Drops a field of a projection with a notice. -/
def dropPath (reason : Reason) (message path : String) : Compile Unit :=
  Compile.degrade reason message (.text path) .null

/-- Drops a field whose path is no payload key. -/
def dropInvalid (path : String) (lists : KeyLists) : Compile KeyLists := do
  dropPath .invalidField s!"'{path}' is not a valid payload key; dropped" path
  return lists

/-- Adds a payload key that is delivered as a whole. -/
def addIncluded (payloadPrefix : Value) (path : String) (lists : KeyLists) : Compile KeyLists :=
  if pathGrammar.isPath path then
    return { lists with included := lists.included ++ [fieldKey payloadPrefix path] }
  else dropInvalid path lists

mutual

/-- Adds the payload keys of one projection below a path. -/
def collect (payloadPrefix : Value) (above : String) (lists : KeyLists) :
    Projection → Compile KeyLists
  | .alias name _ => do
    let path := above ++ name.display
    dropPath .unsupportedAlias s!"Qdrant cannot alias payload keys; '{path}' dropped" path
    return lists
  | .computed name _ _ => do
    let path := above ++ name.display
    dropPath .unsupportedComputed s!"Qdrant cannot compute payload keys; '{path}' dropped" path
    return lists
  | .nested name fields => do
    let path := above ++ name.display
    if pathGrammar.isPath path then collectAll payloadPrefix (path ++ ".") lists fields
    else dropInvalid path lists
  | .excluded name => do
    let path := above ++ name.display
    if pathGrammar.isPath path then
      return { lists with excluded := lists.excluded ++ [fieldKey payloadPrefix path] }
    else dropInvalid path lists
  | .included name => addIncluded payloadPrefix (above ++ name.display) lists
  -- References are resolved after the call, so that their key is delivered as it is.
  | .resolved name => addIncluded payloadPrefix (above ++ name.display) lists
  | .expanded name _ => addIncluded payloadPrefix (above ++ name.display) lists
  | .stray _ => Compile.refuse .mistyped
termination_by structural input => input

/-- Adds the payload keys of projections below a path, in order. -/
def collectAll (payloadPrefix : Value) (above : String) (lists : KeyLists) :
    List Projection → Compile KeyLists
  | [] => pure lists
  | item :: rest => do
    Compile.requireWritten item.name.canDisplay
    let extended ← collect payloadPrefix above lists item
    collectAll payloadPrefix above extended rest
termination_by structural input => input

end

/-- The payload selector for key lists, where inclusions win over exclusions. -/
def selectorOf (lists : KeyLists) : Compile Argument := do
  if !lists.included.isEmpty then
    if !lists.excluded.isEmpty then
      Compile.remark .unsupportedExclusion
        ("Cannot mix included and excluded payload keys; ignoring exclusions: " ++
          ", ".intercalate lists.excluded)
    -- Metadata is delivered in any case, in front of the keys that are named.
    return .including (lists.included.foldl
      (fun keys key => if keys.contains key then keys else keys ++ [key]) rootFields)
  else if !lists.excluded.isEmpty then return .excluding lists.excluded
  else return .value (.bool true)

/-- What is delivered of each payload, and the expansions that a query asks for. -/
def payloadOf (configuration : Configuration) (query : Query) : Compile (Argument × Nat) := do
  if query.projection.isNull then return (.value (.bool true), 0)
  else
    let fields ← Projection.readTop configuration.settings.depthLimit query.projection
    let lists ← collectAll configuration.payloadPrefix "" ⟨[], []⟩ fields
    let selector ← selectorOf lists
    let expansions ← Compile.ofExcept (Projection.measure fields)
    return (selector, expansions)

/-- The one key that points are ordered by; further keys give a notice each. -/
def orderOf (payloadPrefix : Value) (found : Option (String × Direction)) :
    List Value → Compile (Option (String × Direction))
  | [] => pure found
  | entry :: rest => do
    match ← Compile.ofExcept entry.sortField with
    | .text field =>
      -- Points cannot be ordered by their identifier.
      if field = "_id" || !pathGrammar.isPath field then
        Compile.degrade .invalidField s!"Cannot order by '{field}'; ignored" (.text field) .null
        orderOf payloadPrefix found rest
      else if found.isSome then
        Compile.degrade .multiSort
          s!"Qdrant orders by a single key; '{field}' ignored" (.text field) .null
        orderOf payloadPrefix found rest
      else
        let direction ← Compile.ofExcept entry.sortDirection
        orderOf payloadPrefix (some (fieldKey payloadPrefix field, direction)) rest
    | _ => Compile.refuse .mistyped

/-- The number of points to deliver; points are not skipped by number. -/
def limitOf (settings : Settings) (query : Query) : Compile (Option Nat) := do
  if query.offset.any (· != 0) then
    Compile.remark .offsetPagination
      "Qdrant scroll pages by point ID; numeric offset ignored, use cursor"
  return (settings.page query).limit.or settings.defaultLimit

/-- The point from which a scroll goes on, which excludes an order. -/
def cursorOf (query : Query) (ordered : Bool) : Compile (Option Value) := do
  if !query.cursor.isTruthy then return none
  else if ordered then
    Compile.remark .cursorPagination
      "Qdrant cannot continue from a cursor while ordering; cursor ignored"
    return none
  else return some query.cursor

/-- An entry of a map of options, if there is an option for it. -/
def entry? (name : String) (argument : Option Argument) : List (Value × Argument) :=
  (argument.map fun given => (Value.text name, given)).toList

/-- The filter and the options of a query. -/
def convertQuery (configuration : Configuration) (query : Query) (conditions : List Condition) :
    Compile (Option Clause × OrderedMap Value Argument) := do
  let settings := configuration.settings
  let filter ← filterOf configuration query conditions
  let (payload, expansions) ← payloadOf configuration query
  let order ← orderOf configuration.payloadPrefix none query.order
  let limit ← limitOf settings query
  let cursor ← cursorOf query order.isSome
  let depth ← settings.resolveWith query expansions
  if query.locale.isTruthy || query.fallbackLocale.isTruthy then
    Compile.remark .unsupportedLocale "Qdrant payloads are not localized; locale ignored"
  let own : OrderedMap Value Argument := ⟨
    entry? "with_payload" (some payload)
      ++ entry? "order_by" (order.map fun (key, direction) => .order key direction)
      ++ entry? "limit" (limit.map fun count => .value (.int count))
      ++ entry? "offset" (cursor.map .value)
      ++ entry? "resolve_depth" (if depth == 0 then none else some (.value (.int depth)))⟩
  let parameters ← passThrough (fun _ => false) "parameter" .value query.params.entries own
  return (filter, parameters)

/-- What a query compiles to. -/
abbrev Scroll := Compiled (Option Clause) Argument

/-- Compiles a query whose conditions have been read. -/
def compile (configuration : Configuration) (query : Query) (conditions : List Condition) :
    Except Fault Scroll := do
  let scroll ← Compiled.run .qdrant configuration.settings
    (convertQuery configuration query conditions)
  -- The filter of every scroll is written to a log.
  if scroll.query.all Clause.isWritable then return scroll else throw .unwritable

/-- An argument of the call that scrolls: the filter, or an option. -/
inductive CallArgument where
  | filter (clause : Option Clause)
  | option (argument : Argument)

/-- The arguments of the call that scrolls; references are resolved after it. -/
def callArguments (scroll : Scroll) (collection : Value) : OrderedMap Value CallArgument :=
  let start : OrderedMap Value CallArgument :=
    ⟨(if collection.isNull then [] else [(.text "collection_name", .option (.value collection))])
      ++ [(.text "scroll_filter", .filter scroll.query)]⟩
  -- The depth is meant for what comes after the call.
  let options := scroll.parameters.entries.filter fun entry => !(entry.1 == .text "resolve_depth")
  start.union ⟨options.map fun (key, argument) => (key, .option argument)⟩

end ContentQuery.Qdrant
