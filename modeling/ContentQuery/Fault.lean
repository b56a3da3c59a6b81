import ContentQuery.Depth.Limit
import ContentQuery.Notice

/-! Why a query or a configuration is refused as a whole, and what the caller is told about it. -/

namespace ContentQuery

/-- The targets that queries are compiled for. -/
inductive Target where
  | groq
  | contentful
  | qdrant
  deriving DecidableEq, Repr

namespace Target

/-- Every target, in the order of registration. -/
def all : List Target := [.groq, .contentful, .qdrant]

/-- The name under which a target is registered. -/
def name : Target → String
  | .groq => "groq"
  | .contentful => "contentful"
  | .qdrant => "qdrant"

/-- The name of the compiler for a target. -/
def compilerName : Target → String
  | .groq => "GROQQueryCompiler"
  | .contentful => "ContentfulQueryCompiler"
  | .qdrant => "QdrantQueryCompiler"

end Target

/-- The shapes of a filter node. -/
inductive Shape where
  | leaf
  | all
  | any
  | not
  deriving DecidableEq, Repr

namespace Shape

/-- The word for a shape. -/
def word : Shape → String
  | .leaf => "leaf"
  | .all => "and"
  | .any => "or"
  | .not => "not"

end Shape

/-- One step from a part of a query to a part of that part. -/
inductive Step where
  | item (index : Nat)
  | all (index : Nat)
  | any (index : Nat)
  | negated
  | name (text : String)
  deriving DecidableEq, Repr

namespace Step

/-- The text of a step. -/
def text : Step → String
  | .item index => s!"[{index}]"
  | .all index => s!".and[{index}]"
  | .any index => s!".or[{index}]"
  | .negated => ".not"
  | .name text => "." ++ text

end Step

/-- Where in a query something stands: a root and the steps down from it. -/
structure Position where
  root : String
  steps : List Step
  deriving DecidableEq, Repr

namespace Position

/-- The position of the root itself. -/
def top (root : String) : Position := ⟨root, []⟩

/-- The position one step further down. -/
def down (position : Position) (step : Step) : Position :=
  ⟨position.root, position.steps ++ [step]⟩

/-- The text of a position. -/
def text (position : Position) : String :=
  position.root ++ String.join (position.steps.map Step.text)

end Position

/-- What is wrong with a filter node. -/
inductive NodeFault where
  | noShape
  | severalShapes (shapes : List Shape)
  | noOperator (field : Value)
  | operatorNotText (typeName : String)
  | fieldMissing (operator : String)
  | childrenNotList (shape : Shape)
  | notMap (typeName : String)
  | notNode (typeName : String)
  | unknownKeys (keys : List String)

namespace NodeFault

/-- The sentence that names a fault of a filter node. -/
def message : NodeFault → String
  | .noShape => "Filter node has no field, and, or, or not"
  | .severalShapes shapes =>
    "Filter node mixes several shapes: " ++ ", ".intercalate (shapes.map Shape.word)
  | .noOperator field => s!"Leaf on '{field.display}' has no operator"
  | .operatorNotText typeName => s!"Operator must be a string, got {typeName}"
  | .fieldMissing operator => s!"Operator {operator} requires a field"
  | .childrenNotList shape => s!"'{shape.word}' requires a list"
  | .notMap typeName => s!"Expected a dict, got {typeName}"
  | .notNode typeName => s!"Expected FilterCondition, got {typeName}"
  | .unknownKeys keys => "Unknown filter keys: " ++ ", ".intercalate keys

end NodeFault

/-- The parts of a query that are nested. -/
inductive Nesting where
  | filter
  | projection
  deriving DecidableEq, Repr

namespace Nesting

/-- The name of a nested part. -/
def word : Nesting → String
  | .filter => "Filter"
  | .projection => "Projection"

end Nesting

/-- What is wrong with a setting or with a part of a query outside the filter tree. -/
inductive SettingFault where
  | unknownTarget (target : Value)
  | notNatural (name : String) (value : Value)
  | depthBelowOne
  | rawFilter (target : Target)
  | noTypes
  | invalidType (name : Value)
  | invalidResolution (value : Value)
  | sortWithoutField
  | invalidDirection (direction : Value) (field : String)
  | invalidPath (field : Value)
  | invalidLocale (locale : String)
  | notInteger (name text : String)
  | negativeInteger (name : String) (value : Int)
  | notFlag (name text : String)

namespace SettingFault

/-- The sentence that names a fault of a setting. -/
def message : SettingFault → String
  | .unknownTarget target => s!"Unknown query target {target.inspect}"
  | .notNatural name value => s!"{name} must be a non-negative integer, got {value.inspect}"
  | .depthBelowOne => "max_depth must be at least 1"
  | .rawFilter target => s!"{target.compilerName} does not accept raw string global filters"
  | .noTypes => "QueryConfig.type must not be an empty list"
  | .invalidType name => s!"Invalid document type {name.inspect}"
  | .invalidResolution value =>
    s!"resolve_references must be a boolean or a non-negative depth, got {value.inspect}"
  | .sortWithoutField => "OrderBy requires a field name"
  | .invalidDirection direction field =>
    s!"Invalid sort direction {direction.inspect} for '{field}'"
  | .invalidPath field => s!"'{field.display}' is not a valid GROQ field path"
  | .invalidLocale locale => s!"'{locale}' is not a valid locale key"
  | .notInteger name text => s!"{name} must be an integer, got {Text.quote text}"
  | .negativeInteger name value => s!"{name} must not be negative, got {value}"
  | .notFlag name text => s!"{name} must be a boolean flag, got {Text.quote text}"

end SettingFault

/-- The families of faults, each of them part of a wider one. -/
inductive Family where
  | general
  | query
  | validation
  | filter
  | invalidFilter
  | filterDepth
  | degraded
  deriving DecidableEq, Repr

namespace Family

/-- The name of a family. -/
def name : Family → String
  | .general => "ContentBridgeError"
  | .query => "QueryError"
  | .validation => "ValidationError"
  | .filter => "FilterError"
  | .invalidFilter => "InvalidFilterError"
  | .filterDepth => "FilterDepthError"
  | .degraded => "DegradedQueryError"

/-- A family and all wider ones. -/
def lineage : Family → List Family
  | .general => [.general]
  | .query => [.query, .general]
  | .validation => [.validation, .general]
  | .filter => [.filter, .query, .general]
  | .invalidFilter => [.invalidFilter, .filter, .query, .general]
  | .filterDepth => [.filterDepth, .invalidFilter, .filter, .query, .general]
  | .degraded => [.degraded, .filter, .query, .general]

/-- Whether every fault of one family belongs to another. -/
def within (family wider : Family) : Bool :=
  family.lineage.contains wider

/-- Whether faults of a family say where in the query they stand. -/
def hasPosition (family : Family) : Bool :=
  family.within .invalidFilter

end Family

/-- Why a call is refused as a whole. -/
inductive Fault where
  | malformed (fault : NodeFault) (position : Position)
  | tooDeep (nesting : Nesting) (limit : DepthLimit) (position : Position)
  | invalid (fault : SettingFault)
  | degraded (target : Target) (notices : List Notice)
  /-- A value of a kind for which the operation on it makes no sense. -/
  | mistyped
  /-- An integer that exceeds every number it would be compared with. -/
  | overflow
  /-- An integer that has too many digits to be written. -/
  | unwritable

/-- What a fault says beyond its message. -/
inductive Detail where
  | position (text : String)
  | field (name : String)
  | available (targets : List String)
  | notices (notices : List Notice)

namespace Fault

/-- The words of the reasons of notices, sorted and each of them once. -/
def reasonWords (notices : List Notice) : List String :=
  ((notices.map fun notice => notice.reason.word).mergeSort fun left right =>
    decide (left ≤ right)).eraseDups

/-- The sentence that names a fault. -/
def message : Fault → String
  | .malformed fault _ => fault.message
  | .tooDeep nesting limit _ =>
    s!"{nesting.word} nesting exceeds maximum depth of {limit.toValue.display}"
  | .invalid fault => fault.message
  | .degraded target notices =>
    s!"{target.name} query degraded ({notices.length} notice(s): " ++
      ", ".intercalate (reasonWords notices) ++ ")"
  | .mistyped => "a value of the wrong kind"
  | .overflow => "an integer out of range"
  | .unwritable => "an integer with too many digits"

/-- The family of a fault; faults of kind, of range and of length belong to none. -/
def family? : Fault → Option Family
  | .malformed _ _ => some .invalidFilter
  | .tooDeep _ _ _ => some .filterDepth
  | .invalid _ => some .validation
  | .degraded _ _ => some .degraded
  | .mistyped | .overflow | .unwritable => none

/-- What a fault says beyond its message; an empty position says nothing. -/
def detail? : Fault → Option Detail
  | .malformed _ position | .tooDeep _ _ position =>
    if position.text.isEmpty then none else some (.position position.text)
  | .invalid (.unknownTarget _) =>
    some (.available ((Target.all.map Target.name).mergeSort fun left right =>
      decide (left ≤ right)))
  | .invalid (.invalidDirection _ field) => some (.field field)
  | .degraded _ notices => some (.notices notices)
  | _ => none

end Fault

/-- Lets pass what lies within a limit, and refuses what is nested more deeply. -/
def Nesting.checkDepth (nesting : Nesting) (limit : DepthLimit) (depth : Nat)
    (position : Position) : Except Fault Unit :=
  match limit.exceeded? depth with
  | some true => .error (.tooDeep nesting limit position)
  | some false => .ok ()
  | none => .error .mistyped

end ContentQuery
