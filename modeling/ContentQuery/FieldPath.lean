import ContentQuery.Text.Digit

/-! The grammars of field paths: names joined by dots or arrows, with brackets after a name. -/

namespace ContentQuery

/-- The letters and the underscore, one of which opens a name. -/
def isNameHead (c : Char) : Bool :=
  c.isAlpha || c == '_'

/-- The characters after the first of a name. -/
def isNameTail (c : Char) : Bool :=
  c.isAlphanum || c == '_'

/-- What may stand in brackets after a name: no brackets at all, nothing, or a number. -/
inductive PathIndex where
  | forbidden
  | vacant
  | number
  deriving DecidableEq, Repr

/-- The choices in which the grammars of paths differ. -/
structure PathGrammar where
  /-- Whether an arrow may join two names like a dot. -/
  arrows : Bool
  /-- What a name may be indexed with. -/
  index : PathIndex
  deriving Repr

/-- How far a path has been read. -/
inductive PathState where
  /-- A name has to open. -/
  | opening
  /-- Inside a name. -/
  | name
  /-- Inside the brackets after a name. -/
  | bracket
  /-- Behind the brackets after a name. -/
  | closed
  /-- Between the two characters of an arrow. -/
  | arrow
  deriving DecidableEq, Repr

/-- A line break at the end of a text is not part of the path or name it holds. -/
def withoutFinalBreak (chars : List Char) : List Char :=
  if chars.getLast? = some '\n' then chars.dropLast else chars

namespace PathGrammar

/-- The state behind a character that joins two names. -/
def joint (grammar : PathGrammar) (c : Char) : Option PathState :=
  if c = '.' then some .opening
  else if c = '-' && grammar.arrows then some .arrow
  else none

/-- The state behind one character of a path, if it may stand there. -/
def step (grammar : PathGrammar) : PathState → Char → Option PathState
  | .opening, c => if isNameHead c then some .name else none
  | .name, c =>
    if isNameTail c then some .name
    else if c = '[' && grammar.index ≠ .forbidden then some .bracket
    else grammar.joint c
  | .bracket, c =>
    if c = ']' then some .closed
    else if grammar.index = .number && Text.isDigit c then some .bracket
    else none
  | .closed, c => grammar.joint c
  | .arrow, c => if c = '>' then some .opening else none

/-- A path may end behind a name or behind its brackets. -/
def isFinal : PathState → Bool
  | .name | .closed => true
  | _ => false

/-- Whether characters form a path. -/
def accepts (grammar : PathGrammar) (chars : List Char) : Bool :=
  (chars.foldlM grammar.step .opening).any isFinal

/-- Whether a text is a path. -/
def isPath (grammar : PathGrammar) (text : String) : Bool :=
  grammar.accepts (withoutFinalBreak text.toList)

end PathGrammar

/-- Whether characters form one name. -/
def isNameChars : List Char → Bool
  | [] => false
  | head :: tail => isNameHead head && tail.all isNameTail

/-- Whether a text is one name. -/
def isName (text : String) : Bool :=
  isNameChars (withoutFinalBreak text.toList)

/-- Whether characters form the name of a function, which a namespace may precede. -/
def isFunctionChars (chars : List Char) : Bool :=
  isNameChars (chars.takeWhile (· != ':')) &&
    match chars.dropWhile (· != ':') with
    | [] => true
    | ':' :: ':' :: name => isNameChars name
    | _ => false

/-- Whether a text is the name of a function. -/
def isFunctionName (text : String) : Bool :=
  isFunctionChars (withoutFinalBreak text.toList)

end ContentQuery
