import ContentQuery.Groq.Expression

/-! Filter clauses read as the language reads them: atoms under `!`, `&&`, `||` and parentheses. -/

namespace ContentQuery.Groq

/-- What a clause says: atoms joined by negation, conjunction and disjunction. -/
inductive Formula where
  | atom (text : String)
  | not (operand : Formula)
  | and (left right : Formula)
  | or (left right : Formula)
  deriving DecidableEq, Repr

namespace Formula

/-- Whether a formula is true where `truth` tells the true atoms; two words are constants. -/
def Holds (truth : String → Prop) : Formula → Prop
  -- The two constants are no atoms that `truth` could decide otherwise.
  | .atom text => text = "true" ∨ (text ≠ "false" ∧ truth text)
  | .not operand => ¬ operand.Holds truth
  | .and left right => left.Holds truth ∧ right.Holds truth
  | .or left right => left.Holds truth ∨ right.Holds truth

/-- The text of a formula with every operator in parentheses. -/
def spell : Formula → String
  | .atom text => text
  | .not operand => "!(" ++ operand.spell ++ ")"
  | .and left right => "(" ++ left.spell ++ " && " ++ right.spell ++ ")"
  | .or left right => "(" ++ left.spell ++ " || " ++ right.spell ++ ")"

/-- The conjunction of formulas. -/
def all : List Formula → Formula
  | [] => .atom "true"
  | [only] => only
  | first :: rest => .and first (all rest)

/-- The disjunction of formulas. -/
def any : List Formula → Formula
  | [] => .atom "false"
  | [only] => only
  | first :: rest => .or first (any rest)

/-- A formula behind a number of negations. -/
def negated : Nat → Formula → Formula
  | 0, formula => formula
  | count + 1, formula => negated count (.not formula)

end Formula

/-- Blanks separate the words of a clause. -/
def isBlank (c : Char) : Bool :=
  c.isWhitespace

/-- A text without the blanks at its end. -/
def trimmed (text : String) : String :=
  String.ofList (text.toList.reverse.dropWhile isBlank).reverse

/-- The quotation marks, between which every character stands for itself. -/
def isQuote (c : Char) : Bool :=
  c == '"' || c == '\''

/-- The bracket that closes an opening one. -/
def closing? : Char → Option Char
  | '(' => some ')'
  | '[' => some ']'
  | '{' => some '}'
  | _ => none

/-- The brackets that close others. -/
def isClosing (c : Char) : Bool :=
  c == ')' || c == ']' || c == '}'

/-- What has been read inside one pair of grouping parentheses, or outside all of them. -/
structure Level where
  /-- The complete disjuncts, each given by its conjuncts. -/
  disjuncts : List (List Formula) := []
  /-- The complete conjuncts of the disjunct that is being read. -/
  conjuncts : List Formula := []
  /-- The number of negations in front of the operand that is being read. -/
  negations : Nat := 0
  /-- The group in parentheses that the operand opens with. -/
  group : Option Formula := none
  /-- The other characters of the operand, the last one first. -/
  text : List Char := []

namespace Level

/-- Whether nothing of an operand has been read but negations. -/
def isVacant (level : Level) : Bool :=
  level.group.isNone && level.text.isEmpty

/-- Adds a character to the operand. -/
def put (level : Level) (c : Char) : Level :=
  { level with text := c :: level.text }

/-- Takes the last character off the operand. -/
def unput (level : Level) : Level :=
  { level with text := level.text.tail }

/-- The operand without its negations; a group followed by a text is part of an atom. -/
def bare? (level : Level) : Option Formula :=
  match level.group, level.text.dropWhile isBlank with
  | none, [] => none
  | some formula, [] => some formula
  | none, words => some (.atom (String.ofList words.reverse))
  -- A call such as `(x)[0]` opens with a group without being one.
  | some formula, words =>
    some (.atom ("(" ++ formula.spell ++ ")" ++ String.ofList words.reverse))

/-- The conjuncts of the last disjunct when its last operand is complete. -/
def conjuncts? (level : Level) : Option (List Formula) :=
  level.bare?.map fun operand => level.conjuncts ++ [operand.negated level.negations]

/-- The disjuncts when the last operand is complete. -/
def disjuncts? (level : Level) : Option (List (List Formula)) :=
  level.conjuncts?.map fun conjuncts => level.disjuncts ++ [conjuncts]

/-- Goes on to the next conjunct. -/
def conjoin (level : Level) : Option Level :=
  level.conjuncts?.map fun conjuncts => { disjuncts := level.disjuncts, conjuncts }

/-- Goes on to the next disjunct. -/
def disjoin (level : Level) : Option Level :=
  level.disjuncts?.map fun disjuncts => { disjuncts }

end Level

/-- Where a reader stands in the words of a clause. -/
inductive ReadMode where
  | plain
  | quoted (mark : Char)
  /-- Behind a backslash between quotation marks. -/
  | escaped (mark : Char)
  /-- Behind two slashes, up to the end of the line. -/
  | comment
  deriving DecidableEq, Repr

/-- How far a clause has been read. -/
structure Reader where
  mode : ReadMode
  /-- The brackets that have to close inside the operand, the innermost first. -/
  awaited : List Char
  /-- The levels that are open, the innermost first. -/
  levels : List Level

namespace Reader

/-- The reader in front of a clause. -/
def start : Reader := ⟨.plain, [], [{}]⟩

/-- Closes a group, which opens an operand of the level around it. -/
def close (level : Level) : List Level → Option Reader
  | [] => none
  | parent :: outer =>
    level.disjuncts?.map fun disjuncts =>
      ⟨.plain, [], { parent with group := some (.any (disjuncts.map .all)) } :: outer⟩

/-- Takes a character as part of the operand; brackets have to match. -/
def absorb (awaited : List Char) (level : Level) (outer : List Level) (c : Char) :
    Option Reader :=
  match closing? c with
  | some closer => some ⟨.plain, closer :: awaited, level.put c :: outer⟩
  | none =>
    if !isClosing c then some ⟨.plain, awaited, level.put c :: outer⟩
    else if awaited.head? = some c then some ⟨.plain, awaited.tail, level.put c :: outer⟩
    else none

/-- Reads a character outside of quotation marks, comments and the brackets of an operand. -/
def operate (level : Level) (outer : List Level) (c : Char) : Option Reader :=
  -- In front of an operand, blanks, groups and negations are not yet part of it.
  if level.isVacant && isBlank c then some ⟨.plain, [], level :: outer⟩
  else if level.isVacant && c == '(' then some ⟨.plain, [], {} :: level :: outer⟩
  else if level.isVacant && c == '!' then
    some ⟨.plain, [], { level with negations := level.negations + 1 } :: outer⟩
  -- An operator is doubled, so that its first character waits in the operand for the second.
  else if c == ')' then close level outer
  else if c == '&' && level.text.head? == some '&' then
    level.unput.conjoin.map fun next => ⟨.plain, [], next :: outer⟩
  else if c == '|' && level.text.head? == some '|' then
    level.unput.disjoin.map fun next => ⟨.plain, [], next :: outer⟩
  else absorb [] level outer c

/-- Reads one character. -/
def step : Reader → Char → Option Reader
  | ⟨_, _, []⟩, _ => none
  | ⟨.quoted mark, awaited, level :: outer⟩, c =>
    some ⟨if c = '\\' then .escaped mark else if c = mark then .plain else .quoted mark,
      awaited, level.put c :: outer⟩
  | ⟨.escaped mark, awaited, level :: outer⟩, c =>
    some ⟨.quoted mark, awaited, level.put c :: outer⟩
  | ⟨.comment, awaited, level :: outer⟩, c =>
    some ⟨if c = '\n' then .plain else .comment, awaited, level :: outer⟩
  | ⟨.plain, awaited, level :: outer⟩, c =>
    -- Quotation marks and comments come first, for no bracket matters inside them.
    if isQuote c then some ⟨.quoted c, awaited, level.put c :: outer⟩
    else if c == '/' && level.text.head? == some '/' then
      some ⟨.comment, awaited, level.unput :: outer⟩
    else if awaited.isEmpty then operate level outer c
    else absorb awaited level outer c

/-- Reads characters in order. -/
def run (reader : Reader) (chars : List Char) : Option Reader :=
  chars.foldlM step reader

/-- The disjuncts of a clause that has been read to its end. -/
def finish : Reader → Option (List (List Formula))
  -- Nothing may be left open at the end, but a comment may run up to it.
  | ⟨.plain, [], [level]⟩ => level.disjuncts?
  | ⟨.comment, [], [level]⟩ => level.disjuncts?
  | _ => none

end Reader

/-- The disjuncts of an expression, each given by its conjuncts, if the text is an expression. -/
def readExpression (text : String) : Option (List (List Formula)) :=
  (Reader.start.run text.toList).bind Reader.finish

/-- The disjuncts of a filter clause; an empty clause asks for nothing. -/
def readClause (text : String) : Option (List (List Formula)) :=
  if text.isEmpty then some [[]] else readExpression text

/-- Whether one of the disjuncts is true. -/
def SomeHolds (truth : String → Prop) (disjuncts : List (List Formula)) : Prop :=
  ∃ conjuncts ∈ disjuncts, ∀ operand ∈ conjuncts, operand.Holds truth

/-- Whether a text can be read as a filter clause and is true. -/
def ClauseHolds (truth : String → Prop) (text : String) : Prop :=
  ∃ disjuncts, readClause text = some disjuncts ∧ SomeHolds truth disjuncts

end ContentQuery.Groq
