import ContentQuery.Condition.Dictionary
import ContentQuery.Depth.Request
import ContentQuery.OrderedMap
import ContentQuery.Page
import ContentQuery.SortKey

/-! Queries: what documents are asked for, and which parts of them, in words of no target. -/

namespace ContentQuery

/-- The document types a query selects. -/
inductive TypeSelection where
  | every
  | one (name : String)
  | several (names : List String)
  deriving DecidableEq, Repr

namespace TypeSelection

/-- The names of the selected types, none of them where every type is selected. -/
def names : TypeSelection → List String
  | .every => []
  | .one name => [name]
  | .several names => names

/-- A selection as a value. -/
def toValue : TypeSelection → Value
  | .every => .null
  | .one name => .text name
  | .several names => .list (names.map .text)

/-- The name of a type, which must not be empty. -/
def readName : Value → Except Fault String
  | .text name =>
    if name.isEmpty then .error (.invalid (.invalidType (.text name))) else .ok name
  | other => .error (.invalid (.invalidType other))

/-- Reads a selection: a name, or any container of names but an empty one. -/
def read : Value → Except Fault TypeSelection
  | .null => .ok .every
  | .text name => return .one (← readName (.text name))
  | other =>
    match other.elements? with
    | none => .error .mistyped
    -- A selection that names no type is refused, unlike one that is left out.
    | some [] => .error (.invalid .noTypes)
    | some items => return .several (← items.mapM readName)

end TypeSelection

/-- A query, checked except for its filter and its sort order. -/
structure Query where
  types : TypeSelection
  /-- The conditions as they were given: nodes, or maps that are read when the query is compiled. -/
  filter : List Value
  projection : Value
  /-- The entries of the sort order as they were given. -/
  order : List Value
  limit : Option Nat
  offset : Option Nat
  cursor : Value
  locale : Value
  fallbackLocale : Value
  includeDrafts : Value
  resolve : DepthRequest
  /-- Parameters that are passed through to the target. -/
  params : OrderedMap Value Value

/-- The parts of a query as they are given; a part that is left out is null. -/
structure Query.Draft where
  types : Value := .null
  filter : Value := .null
  projection : Value := .null
  order : Value := .null
  limit : Value := .null
  offset : Value := .null
  cursor : Value := .null
  locale : Value := .null
  fallbackLocale : Value := .null
  includeDrafts : Value := .null
  resolve : Value := .null
  params : Value := .null

namespace Value

/-- The elements of a value, or of nothing where it counts as false. -/
def elementsOrNone (value : Value) : Except Fault (List Value) :=
  if !value.isTruthy then .ok []
  else
    match value.elements? with
    | some items => .ok items
    | none => .error .mistyped

/-- One assignment of a map that is given as a list of pairs. -/
def readPair (pair : Value) : Except Fault (Value × Value) :=
  match pair.elements? with
  | some [key, value] => if key.isHashable then .ok (key, value) else .error .mistyped
  | _ => .error .mistyped

/-- Reads a map, or a container of pairs; what counts as false is the empty map. -/
def readMap (value : Value) : Except Fault (OrderedMap Value Value) :=
  match value with
  | .map entries => .ok (.ofList entries)
  | other => return .ofList (← (← other.elementsOrNone).mapM readPair)

/-- Reads a natural number, or nothing where the value is null. -/
def readNatural? (name : String) : Value → Except Fault (Option Nat)
  | .null => .ok none
  | .int (.ofNat count) => .ok (some count)
  -- A truth value is no number here, although it counts as one elsewhere.
  | other => .error (.invalid (.notNatural name other))

/-- Reads a request to resolve references: nothing, a flag, or a number of levels. -/
def readResolution : Value → Except Fault DepthRequest
  | .null => .ok .unset
  | .bool wanted => .ok (.flag wanted)
  | .int (.ofNat levels) => .ok (.levels levels)
  | other => .error (.invalid (.invalidResolution other))

/-- Reads an entry of a sort order: maps become sort keys, and all else is looked at later. -/
def readSortEntry : Value → Except Fault Value
  | .map entries => return .sortKey (← SortKey.ofMap entries)
  | other => .ok other

end Value

namespace Query

namespace Draft

/-- The query of a draft whose parts are all well-formed. -/
def check (draft : Draft) : Except Fault Query := do
  let types ← TypeSelection.read draft.types
  let filter ← draft.filter.elementsOrNone
  let order ← (← draft.order.elementsOrNone).mapM Value.readSortEntry
  let params ← draft.params.readMap
  let limit ← draft.limit.readNatural? "limit"
  let offset ← draft.offset.readNatural? "offset"
  let resolve ← draft.resolve.readResolution
  return {
    types, filter, order, params, limit, offset, resolve
    projection := draft.projection
    cursor := draft.cursor
    locale := draft.locale
    fallbackLocale := draft.fallbackLocale
    includeDrafts := draft.includeDrafts }

end Draft

/-- The names of the parts of a query. -/
def partNames : List String :=
  ["type", "filter", "projection", "order_by", "limit", "offset", "cursor", "locale",
    "fallback_locale", "include_drafts", "resolve_references", "params"]

/-- Whether every key of a map is one of the given names. -/
def keysWithin (names : List String) (entries : List (Value × Value)) : Bool :=
  entries.all fun entry =>
    match entry.1 with
    | .text name => names.contains name
    | _ => false

/-- The draft whose parts a function gives by name. -/
def draftOf (part : String → Value) : Draft :=
  { types := part "type"
    filter := part "filter"
    projection := part "projection"
    order := part "order_by"
    limit := part "limit"
    offset := part "offset"
    cursor := part "cursor"
    locale := part "locale"
    fallbackLocale := part "fallback_locale"
    includeDrafts := part "include_drafts"
    resolve := part "resolve_references"
    params := part "params" }

/-- The query whose parts are the entries of a map, which has no other entries. -/
def ofParts (entries : List (Value × Value)) : Except Fault Query :=
  if keysWithin partNames entries then
    (draftOf fun name => (Value.lookup? name entries).getD .null).check
  else .error .mistyped

/-- The second spelling of the name of a part. -/
def camelName : String → String
  | "order_by" => "orderBy"
  | "fallback_locale" => "fallbackLocale"
  | "include_drafts" => "includeDrafts"
  | "resolve_references" => "resolveReferences"
  | name => name

/-- The entry of a map under either spelling of a name. -/
def pick (entries : List (Value × Value)) (name : String) : Value :=
  -- The first spelling wins where both are there.
  ((Value.lookup? name entries).or (Value.lookup? (camelName name) entries)).getD .null

/-- Reads filter conditions, each of them a map or a node, at their places in a list. -/
def readFilter (limit : DepthLimit) (items : List Value) : Except Fault (List Value) :=
  (items.zipIdx).mapM fun (item, index) =>
    Node.ofDictionary limit 1 ((Position.top "filter").down (.item index)) item

/-- Whether a container mentions a part of a query under either spelling of its name. -/
def mentionsPart (mentions : String → Bool) : Bool :=
  partNames.any fun name => mentions name || mentions (camelName name)

/--
The entries of the dictionary form of a query. A list, a tuple, a set or a text is the form of a
query without parts, as long as it does not mention any.
-/
def entriesOf (form : Value) : Except Fault (List (Value × Value)) :=
  match form with
  | .map entries => .ok entries
  | .text words => noneIf (mentionsPart fun name => isWithin name.toList words.toList)
  | .list items | .tuple items | .set _ items =>
    noneIf (mentionsPart fun name => items.contains (.text name))
  | _ => .error .mistyped
where
  /-- Whether characters stand next to each other somewhere in others. -/
  isWithin (part : List Char) : List Char → Bool
    | [] => part.isEmpty
    | c :: rest => part.isPrefixOf (c :: rest) || isWithin part rest
  /-- No entries, unless a part is mentioned whose value cannot be looked up. -/
  noneIf (mentioned : Bool) : Except Fault (List (Value × Value)) :=
    if mentioned then .error .mistyped else .ok []

/-- Reads a query from its dictionary form; entries that are no part of a query are ignored. -/
def ofDictionary (limit : DepthLimit) (entries : List (Value × Value)) : Except Fault Query := do
  let filter ← readFilter limit (← (pick entries "filter").elementsOrNone)
  ({ draftOf (pick entries) with filter := .list filter }).check

/-- Reads the conditions of a filter that are still maps. -/
def readRawFilter (limit : DepthLimit) (items : List Value) : Except Fault (List Value) :=
  (items.zipIdx).mapM fun (item, index) =>
    -- Nodes are checked when their conditions are read, and maps have to become nodes before.
    match item with
    | .map _ => Node.ofDictionary limit 1 ((Position.top "filter").down (.item index)) item
    | other => .ok other

/-- The window of results that a query asks for, given the default limit of a target. -/
def page (query : Query) (standard : Option Nat) : Page Nat :=
  .resolve query.limit query.offset standard

end Query

end ContentQuery
