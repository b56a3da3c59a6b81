import ContentQuery.Groq.Attribute

/-! GROQ statements: a filter, a sort order, a slice and a projection over all documents. -/

namespace ContentQuery.Groq

/-- The part of the results that a statement delivers. -/
inductive Slice where
  | whole
  | openFrom (start : Nat)
  | between (start stop : Nat)
  deriving DecidableEq, Repr

/-- The slice of a page. -/
def Slice.ofPage (page : Page Nat) : Slice :=
  if page.isWhole then .whole
  else
    match page.stop with
    | none => .openFrom page.offset
    | some stop => .between page.offset stop

/-- Whether the text of a slice can be written. -/
def Slice.isWritable : Slice → Bool
  | .whole => true
  | .openFrom start => Text.isWritable start
  | .between start stop => Text.isWritable start && Text.isWritable stop

/-- The text of a slice; two dots include the last element, three exclude the one they lead to. -/
def Slice.text : Slice → String
  | .whole => ""
  -- Behind the last element counts from the end, so that nothing is cut off.
  | .openFrom start => toString start ++ "..-1"
  | .between start stop => toString start ++ "..." ++ toString stop

/-- A statement over all documents. -/
structure Statement where
  filter : List Expression
  order : List (String × Direction)
  slice : Slice
  projection : Option (List Attribute)

/-- A text between two others, or nothing where the text is empty. -/
def enclosed (before text after : String) : String :=
  if text.isEmpty then "" else before ++ text ++ after

/-- The text of a statement. -/
def Statement.text (statement : Statement) : String :=
  let order := statement.order.map fun (field, direction) => field ++ " " ++ direction.keyword
  "*" ++ enclosed "[" (Expression.clauseText statement.filter) "]"
    ++ enclosed " | order(" (", ".intercalate order) ")"
    ++ enclosed "[" statement.slice.text "]"
    ++ (statement.projection.map fun attributes => " " ++ projectionText attributes).getD ""

/-- Converts the entries of a sort order, leaving out those whose field is no path. -/
def convertOrder : List Value → Compile (List (String × Direction))
  | [] => pure []
  | entry :: rest => do
    let field ← Compile.ofExcept entry.sortField
    let clause ←
      match field with
      | .text path =>
        if pathGrammar.isPath path then do
          let direction ← Compile.ofExcept entry.sortDirection
          pure [(path, direction)]
        else drop field
      | other => drop other
    return clause ++ (← convertOrder rest)
where
  /-- The notice about a field that cannot be sorted by. -/
  drop (field : Value) : Compile (List (String × Direction)) := do
    Compile.requireWritten field.canDisplay
    Compile.degrade .invalidField
      s!"'{field.display}' is not a valid GROQ sort field; ignored" field .null
    return []

/-- The slice of a query; cursors mean nothing to the language. -/
def convertSlice (settings : Settings) (query : Query) : Compile Slice := do
  if query.cursor.isTruthy then
    Compile.remark .cursorPagination "GROQ has no cursor pagination; cursor ignored"
  let slice := Slice.ofPage (settings.page query)
  Compile.requireWritten slice.isWritable
  return slice

/-- Adds a parameter that counts as true, unless its name is taken. -/
def addLocale (name : String) (locale : Value) (parameters : OrderedMap Value Value) :
    OrderedMap Value Value :=
  if locale.isTruthy && !parameters.contains (.text name) then parameters.insert (.text name) locale
  else parameters

/-- The parameters of a statement: placeholders, what is passed through, and the locales. -/
def convertParameters (settings : Settings) (query : Query) : Compile (OrderedMap Value Value) := do
  let bound : OrderedMap Value Value := ⟨(← get).named⟩
  let parameters ← passThrough (fun _ => false) "placeholder" id query.params.entries bound
  let fallback := query.fallbackLocale.orElse (settings.fallbackLocales.headD .null)
  return addLocale "fallbackLocale" fallback
    (addLocale "locale" (query.locale.orElse settings.defaultLocale) parameters)

/-- The statement and the parameters of a query. -/
def convertQuery (settings : Settings) (query : Query) (conditions : List Condition) :
    Compile (Statement × OrderedMap Value Value) := do
  let filter ← (filterParts settings query conditions).lift
  let order ← convertOrder query.order
  let slice ← convertSlice settings query
  let projection ← projectionOf settings query
  let parameters ← convertParameters settings query
  return (⟨filter, order, slice, projection⟩, parameters)

/-- Compiles a query whose conditions have been read. -/
def compile (settings : Settings) (query : Query) (conditions : List Condition) :
    Except Fault (Compiled Statement Value) := do
  -- Nothing else refuses a filter, so that this is asked before anything is converted.
  if !canConvertAll (conditions ++ settings.globalFilter.conditionList) then throw .unwritable
  Compiled.run .groq settings (convertQuery settings query conditions)

end ContentQuery.Groq
