import ContentQuery.Contentful.Filter
import ContentQuery.Projection
import ContentQuery.Text.Percent

/-! Contentful requests: filter parameters, and the parameters that shape the answer. -/

namespace ContentQuery.Contentful

/-- Drops a field of a projection with a notice. -/
def dropField (reason : Reason) (message : String) (name : Value) : Compile (Option String) := do
  -- The message shows the name, which a caller may have made of any value.
  Compile.requireWritten name.canDisplay
  Compile.degrade reason message name .null
  return none

/-- The key that a name selects, if it selects one; metadata is always selected. -/
def keyOfName (name : String) : Compile (Option String) :=
  if (systemKeys.lookup name).isSome then return none
  -- A selection names whole fields, so that a path into one is no name.
  else if !pathGrammar.isPath name || name.toList.contains '.' then
    dropField .invalidField s!"'{name}' is not a valid Contentful field name; dropped" (.text name)
  else return some ("fields." ++ name)

/-- The key that a projection selects, if it selects one. -/
def selectedKey (item : Projection) : Compile (Option String) := do
  let shown := item.name.display
  match item, item.name with
  | .excluded _, name =>
    dropField .unsupportedExclusion
      s!"Contentful select cannot exclude fields; '{shown}' exclusion ignored" name
  | .alias _ _, name =>
    dropField .unsupportedAlias s!"Contentful cannot alias fields; '{shown}' dropped" name
  | .computed _ _ _, name =>
    dropField .unsupportedComputed s!"Contentful cannot compute fields; '{shown}' dropped" name
  | .nested _ _, .text name => do
    let key ← keyOfName name
    if key.isSome then
      Compile.degrade .nestedProjection
        s!"Contentful select cannot pick sub-fields; selecting all of '{name}'" (.text name) .null
    return key
  | _, .text name => keyOfName name
  | _, _ => Compile.refuse .mistyped

/-- The keys that projections select, each of them once, after those selected already. -/
def selectKeys (selected : List String) : List Projection → Compile (List String)
  | [] => pure selected
  | item :: rest => do
    match ← selectedKey item with
    | some key =>
      selectKeys (if selected.contains key then selected else selected ++ [key]) rest
    | none => selectKeys selected rest

/-- The selection of a query, if it has a projection, and the expansions it asks for. -/
def selectionOf (settings : Settings) (query : Query) : Compile (Option String × Nat) := do
  if query.projection.isNull then return (none, 0)
  else
    let fields ← Projection.readTop settings.depthLimit query.projection
    let keys ← selectKeys ["sys"] fields
    let expansions ← Compile.ofExcept (Projection.measure fields)
    return (some (",".intercalate keys), expansions)

/-- The depth to which references are resolved; a request for none is sent, silence is not. -/
def includeOf (settings : Settings) (query : Query) (expansions : Nat) : Compile (Option Nat) := do
  let depth ← settings.resolveWith query expansions
  -- The service resolves one level by itself, which only an explicit zero turns off.
  if depth != 0 then return some depth
  else return if query.resolve.declines then some 0 else none

/-- The sort clauses of a query, a hyphen before those that descend. -/
def orderClauses : List Value → Compile (List String)
  | [] => pure []
  | entry :: rest => do
    let field ← Compile.ofExcept entry.sortField
    let clause ←
      match ← pathOf? field "order" with
      | none => pure []
      | some path => do
        let mark :=
          match ← Compile.ofExcept entry.sortDirection with
          | .ascending => ""
          | .descending => "-"
        pure [mark ++ fieldKey path]
    return clause ++ (← orderClauses rest)

/-- The window of a query; an open window is cut at the default limit. -/
def windowOf (settings : Settings) (query : Query) : Compile (Nat × Option Nat) := do
  if query.cursor.isTruthy then
    Compile.remark .cursorPagination
      "Contentful entries have no cursor pagination; cursor ignored"
  let page := settings.page query
  return (page.offset, page.limit.or settings.defaultLimit)

/-- The locale of a query, or every locale, or the default. -/
def localeOf (settings : Settings) (everyLocale : Value) (query : Query) : Compile Value := do
  if query.fallbackLocale.isTruthy then
    Compile.remark .unsupportedLocale
      "Contentful fallback locales are configured per space; fallback_locale ignored"
  if query.locale.isTruthy then return query.locale
  else if everyLocale.isTruthy then return .text "*"
  else return settings.defaultLocale

/-- An entry of a map of parameters, if there is a value for it. -/
def entry? (name : String) (value : Option Value) : List (Value × Value) :=
  (value.map fun given => (Value.text name, given)).toList

/-- The filter and the parameters of a query. -/
def convertQuery (settings : Settings) (everyLocale : Value) (query : Query)
    (conditions : List Condition) : Compile (FilterMap × OrderedMap Value Value) := do
  let filter ← filterOf settings query conditions
  let (selection, expansions) ← selectionOf settings query
  let order := ",".intercalate (← orderClauses query.order)
  let (skip, limit) ← windowOf settings query
  let locale ← localeOf settings everyLocale query
  let depth ← includeOf settings query expansions
  let own : OrderedMap Value Value := ⟨
    entry? "select" (selection.map .text)
      ++ entry? "order" (if order.isEmpty then none else some (.text order))
      ++ entry? "skip" (if skip == 0 then none else some (.int skip))
      ++ entry? "limit" (limit.map fun count => .int count)
      ++ entry? "locale" (if locale.isTruthy then some locale else none)
      ++ entry? "include" (depth.map fun levels => .int levels)⟩
  -- Parameters that are passed through must not take the key of a filter or of another parameter.
  let parameters ← passThrough (inFilter filter) "parameter" id query.params.entries own
  return (filter, parameters)
where
  /-- Whether a key is one of the filter. -/
  inFilter (filter : FilterMap) : Value → Bool
    | .text key => filter.contains key
    | _ => false

/-- What a query compiles to. -/
abbrev Request := Compiled FilterMap Value

/-- Compiles a query whose conditions have been read. -/
def compile (settings : Settings) (everyLocale : Value) (query : Query)
    (conditions : List Condition) : Except Fault Request := do
  let request ← Compiled.run .contentful settings
    (convertQuery settings everyLocale query conditions)
  -- The filter of every request is written to a log.
  if request.query.entries.all (·.2.isWritable) then return request else throw .unwritable

/-- All parameters of a request in one map. -/
def allParameters (request : Request) : OrderedMap Value Value :=
  let filter : OrderedMap Value Value :=
    ⟨request.query.entries.map fun (key, value) => (.text key, value.toValue)⟩
  filter.union request.parameters

/-- The encoded form of a value in a query string; bytes are taken as they are. -/
def encoded : Value → String
  | .bytes bytes => Text.percentBytes bytes
  | other => Text.percent other.display

/-- One entry of a query string, in which truth values are words of lower case. -/
def queryPair (key value : Value) : String :=
  let word :=
    match value with
    | .bool flag => .text (if flag then "true" else "false")
    | other => other
  encoded key ++ "=" ++ encoded word

/-- The query string of a request whose integers can all be written. -/
def queryString (request : Request) : String :=
  "&".intercalate ((allParameters request).entries.map fun (key, value) => queryPair key value)

/-- The query string of a request, which it has where its keys and values can be written. -/
def writeQueryString (request : Request) : Except Fault String :=
  if (allParameters request).entries.all fun entry => entry.1.canDisplay && entry.2.canDisplay then
    .ok (queryString request)
  else .error .unwritable

end ContentQuery.Contentful
