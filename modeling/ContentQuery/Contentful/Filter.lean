import ContentQuery.FieldPath
import ContentQuery.Format.Parameter
import ContentQuery.Settings

/-! Conversion of filter conditions to Contentful parameters, all of which have to hold. -/

namespace ContentQuery.Contentful

/-- Field paths: names joined by dots. -/
def pathGrammar : PathGrammar := ⟨false, .forbidden⟩

/-- Filter parameters by key. -/
abbrev FilterMap := OrderedMap String Parameter

/-- The fields of a document's metadata and the keys they are kept under. -/
def systemKeys : List (String × String) :=
  [("_id", "sys.id"), ("_type", "sys.contentType.sys.id"), ("_createdAt", "sys.createdAt"),
    ("_updatedAt", "sys.updatedAt")]

/-- Whether a field opens with the name of a section, so that it is a key already. -/
def hasSection (field : String) : Bool :=
  ["sys.", "fields."].any fun start => start.toList.isPrefixOf field.toList

/-- The key of a field: metadata lies under `sys`, everything else under `fields`. -/
def fieldKey (field : String) : String :=
  match systemKeys.lookup field with
  | some key => key
  | none =>
    -- A field that names its section is taken for a key already.
    if hasSection field then field else "fields." ++ field

/-- What an operator adds to the key of its field, if it has a parameter at all. -/
def suffix? : Operator → Option String
  | .equal => some ""
  | .notEqual => some "[ne]"
  | .greater => some "[gt]"
  | .atLeast => some "[gte]"
  | .less => some "[lt]"
  | .atMost => some "[lte]"
  | .oneOf => some "[in]"
  | .noneOf => some "[nin]"
  | .contains => some "[all]"
  | .containsAny => some "[in]"
  | .containsAll => some "[all]"
  | .matches => some "[match]"
  | .defined => some "[exists]"
  | .undefined => some "[exists]"
  | .startsWith | .endsWith | .references => none

/-- The operators that compile to a parameter. -/
def supports (operator : Operator) : Bool :=
  (suffix? operator).isSome || operator = .references

/-- The map of one parameter. -/
def single (key : String) (value : Parameter) : FilterMap :=
  ⟨[(key, value)]⟩

/-- The notice about a field that is no path. -/
def noteField (field : Value) (role : String) : Compile Unit :=
  Compile.degrade .invalidField
    s!"'{field.display}' is not a valid Contentful field path; condition dropped"
    field (.text role)

/-- The path that a field is; other texts give a notice, and fields of other kinds are refused. -/
def pathOf? (field : Value) (role : String) : Compile (Option String) :=
  match field with
  | .text path =>
    if pathGrammar.isPath path then return some path
    else do
      noteField field role
      return none
  | .null => do
    noteField field role
    return none
  | _ => Compile.refuse .mistyped

/-- Merges filter parameters; the last value of a key wins, with a notice where values differ. -/
def mergeEntries : List (String × Parameter) → FilterMap → Compile FilterMap
  | [], map => pure map
  | (key, value) :: rest, map => do
    -- Equal values may meet without harm; a different one takes the place of the old.
    if (map.get? key).any (!·.same value) then
      Compile.degrade .keyCollision
        s!"Filter key '{key}' is set more than once; keeping the last value" (.text key) .null
    mergeEntries rest (map.insert key value)

/-- Merges a map of filter parameters into another. -/
def merge (map source : FilterMap) : Compile FilterMap :=
  mergeEntries source.entries map

/-- The parameter of a literal, or a notice where it has none. -/
def parameterOf? (field : Value) (operator : Operator) (value : Value) :
    Compile (Option Parameter) :=
  match Parameter.ofValue value with
  | .ok parameter => return some parameter
  | .error fault => do
    dropInvalidValue field operator fault
    return none

/-- Converts a reference comparison: to anything linked, or to what one field links. -/
def convertReference (field value : Value) : Compile FilterMap := do
  match ← parameterOf? field .references value with
  | none => return .empty
  | some parameter =>
    let several := value.items?.isSome
    -- Without a field, any link to the entry is wanted.
    if field.isNull then
      if several then
        Compile.degrade .invalidValue
          "links_to_entry accepts a single entry ID; condition dropped" .null
          (.text Operator.references.symbol)
        return .empty
      else return single "links_to_entry" parameter
    else
      match ← pathOf? field Operator.references.symbol with
      | none => return .empty
      | some path =>
        return single ("fields." ++ path ++ ".sys.id" ++ if several then "[in]" else "") parameter

/-- Converts a comparison of a field; comparing with null asks whether the field exists. -/
def convertComparison (field : Value) (operator : Operator) (suffix : String) (value : Value) :
    Compile FilterMap := do
  match ← pathOf? field operator.symbol with
  | none => return .empty
  | some path =>
    let key := fieldKey path
    let existence (word : String) : FilterMap := single (key ++ "[exists]") (.text word)
    -- Existence checks come first, for they do not look at their literal.
    match operator, value with
    | .defined, _ => return existence "true"
    | .undefined, _ => return existence "false"
    | .equal, .null => return existence "false"
    | .notEqual, .null => return existence "true"
    | _, _ =>
      match ← parameterOf? field operator value with
      | none => return .empty
      | some parameter => return single (key ++ suffix) parameter

/-- Converts a leaf. -/
def convertLeaf (field : Value) (comparison : Comparison) (value : Value) : Compile FilterMap :=
  match comparison with
  | .known .references => convertReference field value
  | .known operator =>
    match suffix? operator with
    | some suffix => convertComparison field operator suffix value
    | none => unsupported
  | .unknown _ => unsupported
where
  /-- The notice about an operator that has no parameter. -/
  unsupported : Compile FilterMap := do
    (noteUnsupported .contentful field comparison).lift
    return .empty

/-- Adds the values that are not there yet. -/
def addNew (values : List Value) (items : List Value) : List Value :=
  items.foldl (fun known item => if known.contains item then known else known ++ [item]) values

/-- The values that a branch allows for a field, if it is an equality or a membership in a list. -/
def allowedValues? (field : Value) : Condition → Option (List Value)
  | .leaf other (.known operator) value =>
    if field.isNull || !(other == field) then none
    else
      match operator, value with
      -- Equality with null is an existence check and cannot stand in a list.
      | .equal, .null => none
      | .equal, single => some [single]
      | .oneOf, .list items => some items
      | .oneOf, .tuple items => some items
      | _, _ => none
  | _ => none

/-- The values that branches on one field allow together, each of them once. -/
def allowedTogether? (field : Value) (branches : List Condition) : Option (List Value) :=
  branches.foldlM (fun values branch => (allowedValues? field branch).map (addNew values)) []

/-- Converts a disjunction on one field to the membership of the field in a list. -/
def convertMembership (field : Value) (values : List Value) : Compile FilterMap := do
  match ← pathOf? field Shape.any.word with
  | none => return .empty
  | some path =>
    match Parameter.ofItems values with
    | .ok parameter => return single (fieldKey path ++ "[in]") parameter
    | .error fault =>
      Compile.requireWritten (!fault.isUnwritable)
      Compile.degrade .invalidValue
        s!"Values for '{path}' cannot be compiled: {fault.message}; condition dropped"
        field (.text Shape.any.word)
      return .empty

/-- The fields of branches, sorted and each of them once; all of them have to be texts. -/
def fieldsOf (branches : List Condition) : Except Fault (List String) :=
  match ((branches.map Condition.field).filter (!·.isNull)).mapM text? with
  | none => .error .mistyped
  | some names =>
    .ok ((names.mergeSort fun left right => decide (left ≤ right)).eraseDups)
where
  /-- The text of a value that is one. -/
  text? : Value → Option String
    | .text name => some name
    | _ => none

/-- The notice about a disjunction of which only the first branch is compiled. -/
def noteAcrossFields (branches : List Condition) : Compile Unit := do
  let joined := ",".intercalate (← Compile.ofExcept (fieldsOf branches))
  Compile.degrade .orAcrossFields
    ("OR across different fields cannot be expressed as Contentful parameters; " ++
      "only the first branch is compiled, results may be a subset")
    (if joined.isEmpty then .null else .text joined) (.text Shape.any.word)

/-- Converts a negation, which is possible around an equality only. -/
def convertNegation (inner : Condition) : Compile FilterMap :=
  if inner.alwaysTrue then do
    Compile.degrade .matchNothing
      ("Negating an always-true condition matches nothing, " ++
        "which Contentful parameters cannot express; dropped")
      .null (.text Shape.not.word)
    return .empty
  else
    match inner with
    -- Only equality has an operator that denies it.
    | .leaf field (.known .equal) value => convertLeaf field (.known .notEqual) value
    | other => do
      Compile.degrade .complexNot
        ("Only NOT around a simple equality can be expressed in Contentful; " ++
          "condition dropped and may require client-side filtering")
        other.field (.text Shape.not.word)
      return .empty

mutual

/-- Converts a condition to parameters. -/
def convert : Condition → Compile FilterMap
  | .leaf field comparison value => convertLeaf field comparison value
  | .all conditions => convertInto .empty conditions
  | .any [] => do
    Compile.remark .emptyOr
      "An empty OR matches nothing, which Contentful parameters cannot express; dropped"
    return .empty
  | .any (first :: rest) => do
    -- One branch that constrains nothing frees the whole disjunction.
    if (first :: rest).any Condition.alwaysTrue then return .empty
    else if rest.isEmpty then convert first
    else
      match allowedTogether? first.field (first :: rest) with
      -- Alternatives on one field are a membership; others cannot be expressed.
      | some values => convertMembership first.field values
      | none =>
        noteAcrossFields (first :: rest)
        convert first
  | .not condition => convertNegation condition
termination_by structural input => input

/-- Converts conditions in order and merges their parameters into a map. -/
def convertInto (map : FilterMap) : List Condition → Compile FilterMap
  | [] => pure map
  | condition :: rest => do
    let source ← convert condition
    let merged ← merge map source
    convertInto merged rest
termination_by structural input => input

end

/-- The filter parameters of a query: one content type, its own conditions and the global ones. -/
def filterOf (settings : Settings) (query : Query) (conditions : List Condition) :
    Compile FilterMap := do
  let start ←
    -- The content type opens the map, and a condition on it would have another key.
    match query.types.names with
    | [] => pure OrderedMap.empty
    | first :: others => do
      if !others.isEmpty then
        Compile.remark .multiType
          s!"Contentful queries one content type at a time; using '{first}'"
      pure (single "content_type" (.text first))
  convertInto start (conditions ++ settings.globalFilter.conditionList)

end ContentQuery.Contentful
