import ContentQuery.FieldPath
import ContentQuery.Format.Json
import ContentQuery.Groq.Expression
import ContentQuery.Settings

/-! Conversion of filter conditions to GROQ expressions; what has none is dropped with a notice. -/

namespace ContentQuery.Groq

/-- Attribute paths: names joined by dots or arrows, each with an optional index. -/
def pathGrammar : PathGrammar := ⟨true, .number⟩

/-- Whether a value is a plain attribute path. -/
def isPath : Value → Bool
  | .text path => pathGrammar.isPath path
  | _ => false

/-- A conversion that a literal without a form breaks off. -/
abbrev Literally := ExceptT FormatFault Convert

/-- Binds the JSON form of a literal to the next placeholder. -/
def placeholder (value : Value) : Literally Nat := do
  let json ← ExceptT.mk (pure value.toJson)
  ExceptT.lift (Convert.bind json)

/-- Binds each literal of a list to a placeholder of its own. -/
def placeholders : List Value → Literally (List Nat)
  | [] => pure []
  | value :: rest => do
    let slot ← placeholder value
    return slot :: (← placeholders rest)

/-- A comparison of a field with one literal. -/
def compareWith (field : String) (relation : Relation) (value : Value) : Literally Expression := do
  return .compare field relation (← placeholder value)

/-- Membership of a field in a list of literals; a single literal counts as a list of one. -/
def within (field : String) (json : Value) : Literally Expression :=
  match json with
  | .list items => compareWith field .within (.list items)
  -- A membership test needs an array on its right side, whatever was given.
  | single => compareWith field .within (.list [single])

/-- Containment of a literal in a field. -/
def containment (field : String) (json : Value) : Literally Expression := do
  return .holds (← placeholder json) field

/-- Containment of several literals, joined in a way that also says what no literals mean. -/
def containments (field : String) (vacant : Expression) (join : List Expression → Expression)
    (json : Value) : Literally Expression :=
  match json with
  -- Nothing to choose from binds no placeholder.
  | .list [] => return vacant
  | .list items => do
    let slots ← placeholders items
    return join (slots.map (Expression.holds · field))
  | single => containment field single

/-- A match with a text pattern made of the literal. -/
def pattern (field : String) (spell : String → String) (json : Value) : Literally Expression :=
  match json with
  | .text words => compareWith field .matching (.text (spell words))
  | _ => throw .patternNotText

/-- The expression of a comparison of a field with a literal in JSON form. -/
def comparison (field : String) (json : Value) : Operator → Literally Expression
  | .equal => compareWith field .equal json
  | .notEqual => compareWith field .notEqual json
  | .greater => compareWith field .greater json
  | .atLeast => compareWith field .atLeast json
  | .less => compareWith field .less json
  | .atMost => compareWith field .atMost json
  | .matches => compareWith field .matching json
  | .oneOf => within field json
  | .noneOf => return .not (← within field json)
  | .contains => containment field json
  | .containsAny => containments field .never .any json
  | .containsAll => containments field .always .all json
  | .startsWith => pattern field (· ++ "*") json
  | .endsWith => pattern field ("*" ++ ·) json
  | .references => return .refersThrough field (← placeholder json)
  | .defined => return .defined field
  | .undefined => return .undefined field

/-- The expression of a leaf; tests for existence do not look at the literal. -/
def leafExpression (field : String) (operator : Operator) (value : Value) :
    Literally Expression :=
  match operator with
  | .defined => return .defined field
  | .undefined => return .undefined field
  -- The form is looked at before anything is bound, so that a fault leaves no placeholder.
  | other => do comparison field (← ExceptT.mk (pure value.toJson)) other

/-- The expression of a reference from anywhere in a document. -/
def referenceExpression (value : Value) : Literally Expression := do
  return .refers (← placeholder (← ExceptT.mk (pure value.toJson)))

/-- Gives the expression, or drops the leaf with a notice about its literal. -/
def orNotice (field : Value) (operator : Operator) (build : Literally Expression) :
    Convert (Option Expression) := do
  match ← build.run with
  | .ok expression => return some expression
  | .error fault =>
    noteInvalidValue field operator fault
    return none

/-- Drops a leaf with a notice about its field. -/
def dropField (field : Value) (operator : Operator) : Convert (Option Expression) := do
  Convert.degrade .invalidField
    s!"'{field.display}' is not a valid GROQ field path; condition dropped"
    field (.text operator.symbol)
  return none

/-- Converts a leaf. -/
def convertLeaf (field : Value) (comparison : Comparison) (value : Value) :
    Convert (Option Expression) :=
  match comparison with
  | .unknown _ => do
    noteUnsupported .groq field comparison
    return none
  | .known operator =>
    match field with
    | .text path =>
      if pathGrammar.isPath path then orNotice field operator (leafExpression path operator value)
      else dropField field operator
    -- Without a field, only a reference can be asked for.
    | .null =>
      if operator = .references then orNotice field operator (referenceExpression value)
      else dropField field operator
    | _ => dropField field operator

/-- The conjunction of what is left of converted conditions, `given` of which there were. -/
def conjunction (given : Nat) (parts : List Expression) : Option Expression :=
  let constraining := parts.filter (!·.isAlways)
  if !constraining.isEmpty then some (.all constraining)
  -- Nothing constrains: true of itself, unless every condition was dropped.
  else if !parts.isEmpty || given == 0 then some .always
  else none

/-- The disjunction of what is left of converted conditions, `given` of which there were. -/
def disjunction (given : Nat) (parts : List Expression) : Option Expression :=
  if given == 0 then some .never
  else if parts.any Expression.isAlways then some .always
  -- Alternatives that were all dropped are dropped as a whole.
  else if parts.isEmpty then none
  else some (.any parts)

/-- The negation of what is left of a converted condition. -/
def negation : Option Expression → Option Expression
  -- The negation of a constant is the other constant, and not a text around it.
  | some .always => some .never
  | some operand => some (.not operand)
  | none => none

mutual

/-- Converts a condition, giving nothing where all of it was dropped. -/
def convert : Condition → Convert (Option Expression)
  | .leaf field comparison value => convertLeaf field comparison value
  | .all conditions => return conjunction conditions.length (← convertAll conditions)
  | .any conditions => return disjunction conditions.length (← convertAll conditions)
  | .not condition => return negation (← convert condition)
termination_by structural input => input

/-- Converts conditions in order, leaving out those that were dropped. -/
def convertAll : List Condition → Convert (List Expression)
  | [] => pure []
  | condition :: rest => do
    let expression ← convert condition
    return expression.toList ++ (← convertAll rest)
termination_by structural input => input

end

/-- Whether a literal has a JSON form, or fails to have one, without an integer being too long. -/
def canForm (value : Value) : Bool :=
  match value.toJson with
  | .ok _ => true
  | .error fault => !fault.isUnwritable

/-- Whether a leaf is converted or dropped without an integer being too long to be written. -/
def canConvertLeaf (field : Value) (comparison : Comparison) (value : Value) : Bool :=
  match comparison with
  | .unknown _ => true
  | .known operator =>
    match field with
    | .text path =>
      -- Tests for existence and fields that are no paths leave the literal alone.
      operator = .defined || operator = .undefined || !pathGrammar.isPath path || canForm value
    | .null => operator ≠ .references || canForm value
    -- The notice about a field shows it.
    | other => other.canDisplay

mutual

/-- Whether every leaf of a condition is converted or dropped without an integer being too long. -/
def canConvert : Condition → Bool
  | .leaf field comparison value => canConvertLeaf field comparison value
  | .all conditions => canConvertAll conditions
  | .any conditions => canConvertAll conditions
  | .not condition => canConvert condition
termination_by structural input => input

/-- Whether every leaf of conditions is converted or dropped without an integer being too long. -/
def canConvertAll : List Condition → Bool
  | [] => true
  | condition :: rest => canConvert condition && canConvertAll rest
termination_by structural input => input

end

/-- The clause that selects the types of a query. -/
def typeClause (query : Query) : List Expression :=
  match query.types.names with
  | [] => []
  | [name] => [.hasType name]
  | names => [.hasTypeAmong names]

/-- The clause that leaves drafts out. -/
def draftClause (settings : Settings) (query : Query) : List Expression :=
  if settings.excludesDrafts query then [.published] else []

/-- The clause of the global filter. -/
def globalClause (settings : Settings) : Convert (List Expression) :=
  match settings.globalFilter with
  | .raw text => pure [.raw text]
  | .conditions _ parsed => convertAll parsed

/-- The parts of the filter of a query, all of which a document has to meet. -/
def filterParts (settings : Settings) (query : Query) (conditions : List Condition) :
    Convert (List Expression) := do
  -- The conditions are converted first, so that their placeholders come in this order.
  let own ← convertAll conditions
  let everywhere ← globalClause settings
  return typeClause query ++ draftClause settings query ++ own ++ everywhere

end ContentQuery.Groq
