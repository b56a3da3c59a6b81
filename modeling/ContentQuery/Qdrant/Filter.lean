import ContentQuery.FieldPath
import ContentQuery.Qdrant.Clause
import ContentQuery.Settings

/-! Conversion of filter conditions to payload clauses; what has none is dropped with a notice. -/

namespace ContentQuery.Qdrant

/-- Payload keys: names joined by dots, each with optional empty brackets. -/
def pathGrammar : PathGrammar := ⟨false, .vacant⟩

/-- The settings of a compiler for this target. -/
structure Configuration where
  settings : Settings
  /-- What precedes the keys of document fields, where it counts as true. -/
  payloadPrefix : Value
  /-- The key of the flag that marks drafts. -/
  draftField : Value

/-- The fields that lie at the root of a payload, sorted. -/
def rootFields : List String :=
  ["_createdAt", "_type", "_updatedAt"]

/-- Drops every pair of empty brackets. -/
def withoutBrackets : List Char → List Char
  | '[' :: ']' :: rest => withoutBrackets rest
  | c :: rest => c :: withoutBrackets rest
  | [] => []

/-- The first name of a path, without brackets. -/
def rootName (field : String) : String :=
  String.ofList (withoutBrackets (field.toList.takeWhile (· != '.')))

/-- The payload key of a field. -/
def fieldKey (payloadPrefix : Value) (field : String) : String :=
  -- Metadata lies at the root of a payload, outside of the prefix.
  if !payloadPrefix.isTruthy || rootFields.contains (rootName field) then field
  else payloadPrefix.display ++ "." ++ field

/-- The operators that compile to a clause. -/
def supports : Operator → Bool
  | .startsWith | .endsWith | .references => false
  | _ => true

/-- A clause that one value matches. -/
def matchOne (key : String) (value : Value) : Except BoundFault Clause :=
  match MatchValue.ofValue value with
  | .ok found => .ok (.matching key (.value found))
  | .error fault => .error (.unsuited fault)

/-- The values of an any-of match. -/
def matchList (value : Value) : Except BoundFault MatchList :=
  (MatchList.ofValue value).mapError .unsuited

/-- The items of a container, or a single value as a list of one. -/
def itemsOrSelf (value : Value) : List Value :=
  value.items?.getD [value]

/-- Equality with a literal; equality with null asks for a key that is null. -/
def equality (key : String) (value : Value) : Except BoundFault Clause :=
  if value.isNull then .ok (.isNull key) else matchOne key value

/-- A range that a literal closes off on one side. -/
def rangeClause (key : String) (side : RangeSide) (value : Value) : Except BoundFault Clause := do
  return .range key side (← Bound.ofValue value)

/-- Containment of every item of a literal. -/
def containsEvery (key : String) (value : Value) : Except BoundFault Converted := do
  match ← (itemsOrSelf value).mapM (matchOne key) with
  -- To contain every item of nothing constrains nothing.
  | [] => return .unconstrained
  | [only] => return .clause only
  | clauses => return .clause (.filter clauses [] [])

/-- A match of words, of which there have to be some. -/
def wordsClause (key : String) (value : Value) : Except BoundFault Clause :=
  match value with
  | .text words =>
    if words.isEmpty then .error (.unsuited .emptyTextMatch)
    else .ok (.matching key (.words words))
  | _ => .error (.unsuited .emptyTextMatch)

/-- The clause of a comparison of a payload key with a literal. -/
def keyClause (key : String) (operator : Operator) (value : Value) :
    Except BoundFault Converted :=
  match operator with
  | .equal => return .clause (← equality key value)
  | .notEqual => return .clause (← equality key value).negated
  | .greater => return .clause (← rangeClause key .greater value)
  | .atLeast => return .clause (← rangeClause key .atLeast value)
  | .less => return .clause (← rangeClause key .less value)
  | .atMost => return .clause (← rangeClause key .atMost value)
  | .oneOf | .containsAny => return .clause (.matching key (.anyOf (← matchList value)))
  | .noneOf => return .clause (.matching key (.noneOf (← matchList value)))
  | .contains => return .clause (← matchOne key value)
  | .containsAll => containsEvery key value
  | .matches => return .clause (← wordsClause key value)
  -- A field is there where its key is not empty.
  | .defined => return .clause (Clause.isEmpty key).negated
  | .undefined | .startsWith | .endsWith | .references => return .clause (.isEmpty key)

/-- The clause that a point has one of the identifiers that literals name. -/
def idClause (values : List Value) : Except BoundFault Clause := do
  return .hasId (← (values.mapM PointId.ofValue).mapError .unsuited)

/-- The clause of a comparison of the identifier of a point, for the operators that have one. -/
def idComparison? (operator : Operator) (value : Value) : Option (Except BoundFault Clause) :=
  match operator with
  | .equal => some (idClause [value])
  | .notEqual => some ((idClause [value]).map Clause.negated)
  | .oneOf => some (idClause (itemsOrSelf value))
  | .noneOf => some ((idClause (itemsOrSelf value)).map Clause.negated)
  | _ => none

/-- Gives what a leaf converts to, or drops the leaf with a notice about its literal. -/
def orNotice (field : Value) (operator : Operator) (result : Except BoundFault Converted) :
    Compile Converted :=
  match result with
  | .ok converted => return converted
  | .error (.unsuited fault) => do
    dropInvalidValue field operator fault
    return .dropped
  | .error .overflow => Compile.refuse .overflow

/-- Converts a comparison of a payload key or of the identifier of a point. -/
def convertComparison (payloadPrefix : Value) (path : String) (operator : Operator)
    (value : Value) : Compile Converted :=
  -- The identifier of a point is no part of its payload.
  if path = "_id" then
    match idComparison? operator value with
    | some result => orNotice (.text path) operator (result.map .clause)
    | none => do
      Compile.degrade .unsupportedOperator
        s!"Point IDs only support equality and membership, not '{operator.symbol}'"
        (.text path) (.text operator.symbol)
      return .dropped
  else
    orNotice (.text path) operator (keyClause (fieldKey payloadPrefix path) operator value)

/-- Drops a leaf with a notice about its field. -/
def dropField (field : Value) (operator : Operator) : Compile Converted := do
  Compile.degrade .invalidField
    s!"'{field.display}' is not a valid payload key; condition dropped"
    field (.text operator.symbol)
  return .dropped

/-- Converts a leaf; fields of other kinds than text are refused. -/
def convertLeaf (payloadPrefix field : Value) (comparison : Comparison) (value : Value) :
    Compile Converted :=
  match comparison with
  | .known operator =>
    if supports operator then
      match field with
      | .text path =>
        if pathGrammar.isPath path then convertComparison payloadPrefix path operator value
        else dropField field operator
      | .null => dropField field operator
      | _ => Compile.refuse .mistyped
    else unsupported
  | .unknown _ => unsupported
where
  /-- The notice about an operator that has no clause. -/
  unsupported : Compile Converted := do
    (noteUnsupported .qdrant field comparison).lift
    return .dropped

/-- Joins the clauses that are left of converted conditions. -/
def joined (join : List Clause → Clause) (results : List Converted) : Converted :=
  match results.filterMap Converted.clause? with
  | [] =>
    -- Nothing constrains: true of itself, unless every condition was dropped.
    if results.isEmpty || results.any Converted.isUnconstrained then .unconstrained else .dropped
  | [only] => .clause only
  | clauses => .clause (join clauses)

/-- The conjunction of converted conditions. -/
def conjunction (results : List Converted) : Converted :=
  joined (fun clauses => .filter clauses [] []) results

/-- The disjunction of converted conditions, of which there are some. -/
def disjunction (results : List Converted) : Converted :=
  -- One alternative that constrains nothing frees the whole disjunction.
  if results.any Converted.isUnconstrained then .unconstrained
  else joined (fun clauses => .filter [] clauses []) results

/-- The negation of a converted condition; nothing can say that no point is wanted. -/
def negation : Converted → Compile Converted
  | .clause clause => return .clause clause.negated
  | .dropped => return .dropped
  | .unconstrained => do
    Compile.degrade .matchNothing
      ("Negating an always-true condition matches nothing, " ++
        "which a Qdrant filter cannot express; dropped")
      .null (.text Shape.not.word)
    return .dropped

mutual

/-- Converts a condition. -/
def convert (payloadPrefix : Value) : Condition → Compile Converted
  | .leaf field comparison value => convertLeaf payloadPrefix field comparison value
  | .all conditions => return conjunction (← convertAll payloadPrefix conditions)
  | .any conditions => do
    if conditions.isEmpty then
      Compile.degrade .emptyOr
        "An empty OR matches nothing, which a Qdrant filter cannot express; dropped"
        .null (.text Shape.any.word)
      return .dropped
    else return disjunction (← convertAll payloadPrefix conditions)
  | .not condition => do negation (← convert payloadPrefix condition)
termination_by structural input => input

/-- Converts conditions in order. -/
def convertAll (payloadPrefix : Value) : List Condition → Compile (List Converted)
  | [] => pure []
  | condition :: rest => do
    let converted ← convert payloadPrefix condition
    return converted :: (← convertAll payloadPrefix rest)
termination_by structural input => input

end

/-- The clauses that a converted condition adds to the conjunction of a whole filter. -/
def conjuncts : Converted → List Clause
  | .dropped | .unconstrained => []
  -- A clause that only asks for others is replaced by them.
  | .clause (.filter (first :: rest) [] []) => first :: rest
  | .clause clause => [clause]

/-- The clause that selects the types of a query. -/
def typeClause (query : Query) : List Clause :=
  match query.types.names with
  | [] => []
  | [name] => [.matching "_type" (.value (.text name))]
  | names => [.matching "_type" (.anyOf (.texts names))]

/-- The text of a key that is given as a text or as UTF-8 bytes. -/
def textKey? : Value → Option String
  | .text key => some key
  | .bytes bytes => String.fromUTF8? ⟨bytes.toArray⟩
  | _ => none

/-- The clause that marks the drafts a query leaves out. -/
def draftClause (configuration : Configuration) (query : Query) : Compile (List Clause) :=
  if configuration.settings.excludesDrafts query then
    match textKey? configuration.draftField with
    | some key => return [.matching key (.value (.bool true))]
    | none => Compile.refuse .mistyped
  else return []

/-- The filter of a query, or none where every point is wanted. -/
def filterOf (configuration : Configuration) (query : Query) (conditions : List Condition) :
    Compile (Option Clause) := do
  let excluded ← draftClause configuration query
  let converted ← convertAll configuration.payloadPrefix
    (conditions ++ configuration.settings.globalFilter.conditionList)
  -- What is excluded stands apart, and a filter without any clause is none.
  let required := typeClause query ++ converted.flatMap conjuncts
  return if required.isEmpty && excluded.isEmpty then none
    else some (.filter required [] excluded)

end ContentQuery.Qdrant
