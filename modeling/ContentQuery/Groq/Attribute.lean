import ContentQuery.Groq.Filter
import ContentQuery.Projection
import ContentQuery.Value.JsonText

/-! The attributes of a GROQ projection and their text. -/

namespace ContentQuery.Groq

/-- One attribute of a projection; a key that is written out may be any value with a JSON text. -/
inductive Attribute where
  | plain (name : String)
  | path (key : Value) (target : String)
  | call (key : Value) (function : String) (slots : List Nat)
  | nested (name : String) (attributes : List Attribute)
  /-- A reference resolved as a whole. -/
  | resolved (name : String)
  /-- A reference resolved to some attributes. -/
  | expanded (name : String) (attributes : List Attribute)

namespace Attribute

/-- The name under which an attribute is delivered. -/
def key : Attribute → Value
  | .plain name | .nested name _ | .resolved name | .expanded name _ => .text name
  | .path key _ | .call key _ _ => key

/-- The JSON text of a key. -/
def keyText (key : Value) : String :=
  key.jsonText?.getD ""

mutual

/-- The text of an attribute. -/
def text : Attribute → String
  | .plain name => name
  | .path key target => keyText key ++ ": " ++ target
  | .call key function slots =>
    keyText key ++ ": " ++ function ++ "("
      ++ ", ".intercalate (slots.map Context.slotReference) ++ ")"
  | .nested name attributes => name ++ "\x7b" ++ ", ".intercalate (texts attributes) ++ "\x7d"
  | .resolved name => Text.jsonString name ++ ": " ++ name ++ "->"
  | .expanded name attributes =>
    Text.jsonString name ++ ": " ++ name ++ "->\x7b" ++ ", ".intercalate (texts attributes)
      ++ "\x7d"
termination_by structural input => input

/-- The texts of attributes. -/
def texts : List Attribute → List String
  | [] => []
  | head :: rest => text head :: texts rest
termination_by structural input => input

end

end Attribute

/-- The attributes that documents are rebuilt from, and that are always delivered. -/
def systemFields : List String :=
  ["_id", "_type", "_createdAt", "_updatedAt"]

/-- Drops an attribute with a notice. -/
def dropAttribute (reason : Reason) (message : String) (name : Value) :
    Compile (Option Attribute) := do
  Compile.degrade reason message name .null
  return none

/-- Converts an alias, whose path has to be an attribute path. -/
def convertAlias (name path : Value) : Compile (Option Attribute) :=
  match path with
  | .text words =>
    if pathGrammar.isPath words then return some (.path name words)
    else drop
  | _ => drop
where
  /-- The notice about a path that is none. -/
  drop : Compile (Option Attribute) := do
    Compile.requireWritten path.canDisplay
    dropAttribute .invalidField
      s!"Alias path '{path.display}' for '{name.display}' is not a valid GROQ path; dropped" name

/-- Binds the arguments of a function; all of them have a form before the first is bound. -/
def bindArguments (arguments : List Value) : Literally (List Nat) := do
  let forms ← arguments.mapM fun argument => ExceptT.mk (pure argument.toJson)
  placeholders forms

/-- Converts a computed attribute. -/
def convertComputed (name function : Value) (arguments : List Value) :
    Compile (Option Attribute) :=
  match function with
  | .text called =>
    if isFunctionName called then do
      match ← ((bindArguments arguments).run).lift with
      | .ok slots => return some (.call name called slots)
      | .error fault =>
        Compile.requireWritten (!fault.isUnwritable)
        dropAttribute .invalidValue
          (s!"Argument for computed field '{name.display}' cannot be compiled: " ++
            s!"{fault.message}; dropped")
          name
    else
      dropAttribute .invalidProjection
        s!"'{called}' is not a valid GROQ function name; '{name.display}' dropped" name
  | _ => Compile.refuse .mistyped

/-- The name of an attribute; other texts are dropped with a notice, other kinds refused. -/
def nameOf? (name : Value) : Compile (Option String) :=
  match name with
  | .text words => do
    if isName words then return some words
    else
      Compile.degrade .invalidField s!"'{words}' is not a valid GROQ field name; dropped" name .null
      return none
  | _ => Compile.refuse .mistyped

/-- Leaves a reference unresolved, with a notice about the depth it would need. -/
def leaveUnresolved (limit : Nat) (name : String) : Compile (Option Attribute) := do
  Compile.degrade .resolveDepthClamped
    (s!"Expansion of '{name}' exceeds max resolve depth {limit}; " ++
      "reference left unresolved")
    (.text name) .null
  return some (.plain name)

/-- Refuses a name that cannot be written as a key. -/
def requireKey (name : Value) : Compile Unit :=
  if name.jsonText?.isSome then Compile.requireWritten name.canInspect
  else Compile.refuse .mistyped

mutual

/-- Converts a projection that lies below `depth` resolved references. -/
def convertField (limit depth : Nat) : Projection → Compile (Option Attribute)
  | .excluded name =>
    dropAttribute .unsupportedExclusion
      s!"GROQ projections cannot exclude fields; '{name.display}' exclusion ignored" name
  | .alias name path => convertAlias name path
  | .computed name function arguments => convertComputed name function arguments
  | .included name => return (← nameOf? name).map .plain
  | .nested name fields => do
    match ← nameOf? name with
    | none => return none
    | some known =>
      match ← convertFields limit depth fields with
      -- Without attributes of its own, the field is delivered as a whole.
      | [] => return some (.plain known)
      | attributes => return some (.nested known attributes)
  | .resolved name => do
    match ← nameOf? name with
    | none => return none
    | some known =>
      -- The reference itself is one level deeper than the field it stands in.
      if limit < depth + 1 then leaveUnresolved limit known
      else return some (.resolved known)
  | .expanded name fields => do
    match ← nameOf? name with
    | none => return none
    | some known =>
      if limit < depth + 1 then leaveUnresolved limit known
      else return some (.expanded known (← convertFields limit (depth + 1) fields))
  | .stray _ => Compile.refuse .mistyped
termination_by structural input => input

/-- Converts projections in order, leaving out those that were dropped. -/
def convertFields (limit depth : Nat) : List Projection → Compile (List Attribute)
  | [] => pure []
  | item :: rest => do
    requireKey item.name
    let converted ← convertField limit depth item
    return converted.toList ++ (← convertFields limit depth rest)
termination_by structural input => input

end

/-- Converts the projections of a query, whose keys are told apart from the system fields. -/
def convertTop (limit : Nat) (fields : List Projection) : Compile (List Attribute) := do
  let attributes ← convertFields limit 0 fields
  -- The keys are looked up in a set, which refuses those that can change.
  if attributes.all (·.key.isHashable) then return attributes
  else Compile.refuse .mistyped

/-- The attributes of a query's projection, or none where the whole document is delivered. -/
def projectionOf (settings : Settings) (query : Query) : Compile (Option (List Attribute)) := do
  let fields ← Projection.readTop settings.depthLimit query.projection
  let depth ← settings.resolveDepth query
  -- A depth alone resolves nothing here, which is said before anything is converted.
  if depth != 0 && !fields.any Projection.isExpansion then
    Compile.remark .resolveOutOfBand
      ("GROQ resolves references through expansion descriptors in the projection; " ++
        "resolve_references alone has no effect")
  if query.projection.isNull then return none
  else return some (← convertTop settings.maxResolveDepth fields)

/-- The text of a projection: the system fields not named otherwise, then the attributes. -/
def projectionText (attributes : List Attribute) : String :=
  let named := attributes.map Attribute.key
  let system := systemFields.filter fun field => !named.contains (.text field)
  "\x7b" ++ ", ".intercalate (system ++ Attribute.texts attributes) ++ "\x7d"

end ContentQuery.Groq
