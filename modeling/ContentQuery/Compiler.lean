import ContentQuery.Contentful.Request
import ContentQuery.Groq.Localization
import ContentQuery.Groq.Statement
import ContentQuery.Qdrant.Scroll

/-! Compilers: one for each target, made from options and applied to queries. -/

namespace ContentQuery

/-- A compiler with its settings. -/
inductive Compiler where
  | groq (settings : Settings)
  | contentful (settings : Settings) (everyLocale : Value)
  | qdrant (configuration : Qdrant.Configuration)

/-- What a compiler makes of a query. -/
inductive Output where
  | statement (compiled : Compiled Groq.Statement Value)
  | request (compiled : Contentful.Request)
  | scroll (compiled : Qdrant.Scroll)

namespace Target

/-- The target that a name in capitals or not stands for. -/
def ofValue? : Value → Option Target
  | .text word => all.find? (·.name == Text.lowerAscii word)
  | _ => none

/-- Whether a target has an operator. -/
def supports : Target → Operator → Bool
  | .groq => fun _ => true
  | .contentful => Contentful.supports
  | .qdrant => Qdrant.supports

/-- Whether a target takes a global filter in its own words. -/
def acceptsRawFilter (target : Target) : Bool :=
  target = .groq

/-- The symbols of the operators that a target has, sorted. -/
def operatorSymbols (target : Target) : List String :=
  ((Operator.all.filter target.supports).map Operator.symbol).mergeSort fun left right =>
    decide (left ≤ right)

/-- The names of the options that only one target takes. -/
def ownOptionNames : Target → List String
  | .groq => []
  | .contentful => ["include_all_locales"]
  | .qdrant => ["payload_prefix", "draft_field"]

end Target

namespace Compiler

/-- The target of a compiler. -/
def target : Compiler → Target
  | .groq _ => .groq
  | .contentful _ _ => .contentful
  | .qdrant _ => .qdrant

/-- The settings of a compiler. -/
def settings : Compiler → Settings
  | .groq settings => settings
  | .contentful settings _ => settings
  | .qdrant configuration => configuration.settings

/-- Whether every key of a map of options is a text, and none names the target again. -/
def areOptions (options : List (Value × Value)) : Bool :=
  options.all fun entry =>
    match entry.1 with
    | .text name => name != "target"
    | _ => false

/-- Makes the compiler for a target out of a map of options. -/
def ofTarget (target : Target) (options : List (Value × Value)) : Except Fault Compiler := do
  if !Query.keysWithin (Settings.optionNames ++ target.ownOptionNames) options then
    throw .mistyped
  -- Names are checked before any option is read, so that an unknown one comes first.
  let settings ← Settings.ofOptions target options
  match target with
  | .groq => return .groq settings
  | .contentful =>
    return .contentful settings (Settings.optionOr options "include_all_locales" (.bool false))
  | .qdrant =>
    return .qdrant ⟨settings, Settings.optionOr options "payload_prefix" .null,
      Settings.optionOr options "draft_field" (.text "_draft")⟩

/-- Makes the compiler for a target that is given by name. -/
def create (name : Value) (options : List (Value × Value)) : Except Fault Compiler :=
  if !areOptions options then .error .mistyped
  else
    match Target.ofValue? name with
    | some target => ofTarget target options
    | none => .error (.invalid (.unknownTarget name))

/-- Whether a compiler has the operator that a value is; the symbol of an operator is none. -/
def supports (compiler : Compiler) : Value → Bool
  | .operator operator => compiler.target.supports operator
  | _ => false

/-- Compiles a query whose conditions have been read. -/
def compileConditions (compiler : Compiler) (query : Query) (conditions : List Condition) :
    Except Fault Output :=
  match compiler with
  | .groq settings => (Groq.compile settings query conditions).map .statement
  | .contentful settings everyLocale =>
    (Contentful.compile settings everyLocale query conditions).map .request
  | .qdrant configuration => (Qdrant.compile configuration query conditions).map .scroll

/-- Compiles a query; its conditions are all read before anything is compiled. -/
def compileQuery (compiler : Compiler) (query : Query) : Except Fault Output := do
  let limit := compiler.settings.depthLimit
  -- Nothing is compiled before all conditions have been read and found well-formed.
  let nodes ← Query.readRawFilter limit query.filter
  let conditions ← Condition.readAll limit "filter" nodes
  compiler.compileConditions query conditions

/-- Compiles a query in its dictionary form. -/
def compile (compiler : Compiler) : Value → Except Fault Output
  | .map entries => do
    compiler.compileQuery (← Query.ofDictionary compiler.settings.depthLimit entries)
  | _ => .error .mistyped

/-- The options of a call, of which there must be no others than the named ones. -/
def optionsWithin (names : List String) (options : List (Value × Value)) :
    Except Fault (String → Value) :=
  if Query.keysWithin names options then
    .ok fun name => Settings.optionOr options name .null
  else .error .mistyped

/-- Compiles the query for the document with an identifier. -/
def byId (compiler : Compiler) (id : Value) (options : List (Value × Value)) :
    Except Fault Output := do
  let option ← optionsWithin ["type", "projection", "locale", "resolve_references"] options
  compiler.compileQuery (← Query.Draft.check {
    types := option "type"
    filter := .list [.leaf (.text "_id") (.operator .equal) id]
    projection := option "projection"
    limit := .int 1
    locale := option "locale"
    resolve := option "resolve_references" })

/-- Compiles the query for the documents of a type. -/
def byType (compiler : Compiler) (types : Value) (options : List (Value × Value)) :
    Except Fault Output := do
  let option ← optionsWithin
    ["filter", "projection", "order_by", "limit", "offset", "locale"] options
  let filter ← (option "filter").elementsOrNone
  let order ← (option "order_by").elementsOrNone
  compiler.compileQuery (← Query.Draft.check {
    types
    filter := .list filter
    projection := option "projection"
    order := .list order
    limit := option "limit"
    offset := option "offset"
    locale := option "locale" })

/-- Compiles the query for the documents that refer to a document, through one field or any. -/
def referencing (compiler : Compiler) (id : Value) (options : List (Value × Value)) :
    Except Fault Output := do
  let option ← optionsWithin ["field", "type", "projection", "limit", "locale"] options
  compiler.compileQuery (← Query.Draft.check {
    types := option "type"
    filter := .list [.leaf (option "field") (.operator .references) id]
    projection := option "projection"
    limit := option "limit"
    locale := option "locale" })

/-- The access to the localized forms of a field, which only one target has. -/
def localizedField (compiler : Compiler) (field locale : Value) : Except Fault String :=
  match compiler with
  | .groq settings => Groq.localizedField settings field locale
  | _ => .error .mistyped

end Compiler

end ContentQuery
