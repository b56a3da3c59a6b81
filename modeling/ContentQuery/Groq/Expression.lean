import ContentQuery.Context
import ContentQuery.Text.JsonString

/-! Filter expressions of the GROQ language and their text. -/

namespace ContentQuery.Groq

/-- The comparisons that stand between a field and a value. -/
inductive Relation where
  | equal
  | notEqual
  | greater
  | atLeast
  | less
  | atMost
  | within
  | matching
  deriving DecidableEq, Repr

/-- The word of the language for a comparison. -/
def Relation.text : Relation → String
  | .equal => "=="
  | .notEqual => "!="
  | .greater => ">"
  | .atLeast => ">="
  | .less => "<"
  | .atMost => "<="
  | .within => "in"
  | .matching => "match"

/-- A filter expression; literals are placeholders, given by their index. -/
inductive Expression where
  | always
  | never
  | hasType (name : String)
  | hasTypeAmong (names : List String)
  | published
  /-- Text of the language that is taken over as it stands. -/
  | raw (text : String)
  | compare (field : String) (relation : Relation) (slot : Nat)
  | holds (slot : Nat) (field : String)
  | defined (field : String)
  | undefined (field : String)
  | refers (slot : Nat)
  | refersThrough (field : String) (slot : Nat)
  | not (operand : Expression)
  | all (operands : List Expression)
  | any (operands : List Expression)

namespace Expression

/-- The text that constrains nothing. -/
def alwaysText : String := "true"

mutual

/-- The text of an expression; joined operands and negated ones stand in parentheses. -/
def text : Expression → String
  | .always => alwaysText
  | .never => "false"
  | .hasType name => "_type == " ++ Text.jsonString name
  | .hasTypeAmong names => "_type in " ++ Text.jsonStrings names
  | .published => "!(_id in path(\"drafts.**\"))"
  | .raw words => words
  | .compare field relation slot =>
    field ++ " " ++ relation.text ++ " " ++ Context.slotReference slot
  | .holds slot field => Context.slotReference slot ++ " in " ++ field
  | .defined field => "defined(" ++ field ++ ")"
  | .undefined field => "!defined(" ++ field ++ ")"
  | .refers slot => "references(" ++ Context.slotReference slot ++ ")"
  | .refersThrough field slot =>
    "(" ++ field ++ "._ref == " ++ Context.slotReference slot ++ " || "
      ++ Context.slotReference slot ++ " in " ++ field ++ "[]._ref)"
  | .not operand => "!(" ++ text operand ++ ")"
  | .all operands => "(" ++ " && ".intercalate (texts operands) ++ ")"
  | .any operands => "(" ++ " || ".intercalate (texts operands) ++ ")"
termination_by structural input => input

/-- The texts of expressions. -/
def texts : List Expression → List String
  | [] => []
  | operand :: rest => text operand :: texts rest
termination_by structural input => input

end

/-- Whether an expression constrains nothing. -/
def isAlways : Expression → Bool
  | .always => true
  | _ => false

/-- The text of a conjunction without parentheses, less the parts that constrain nothing. -/
def clauseText (parts : List Expression) : String :=
  " && ".intercalate ((texts parts).filter (· != alwaysText))

end Expression

end ContentQuery.Groq
