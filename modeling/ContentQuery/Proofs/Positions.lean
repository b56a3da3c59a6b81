import ContentQuery.Condition.Node
import Mathlib.Data.List.Basic

/-! Positions in filters: the steps that their texts spell, and the nodes that steps lead to. -/

namespace ContentQuery

namespace Step

/-- Whether a step leads to a filter node, and not into another part of a query. -/
def isNodeStep : Step → Bool
  | .name _ => false
  | _ => true

mutual

/-- The steps that a text spells. -/
def readSteps : List Char → Option (List Step)
  | [] => some []
  | '[' :: rest => readIndex .item none rest
  | '.' :: 'a' :: 'n' :: 'd' :: '[' :: rest => readIndex .all none rest
  | '.' :: 'o' :: 'r' :: '[' :: rest => readIndex .any none rest
  | '.' :: 'n' :: 'o' :: 't' :: rest => (readSteps rest).map (.negated :: ·)
  | _ => none
termination_by structural input => input

/-- The step to an index, of which some digits may have been read, and the steps behind it. -/
def readIndex (step : Nat → Step) (index : Option Nat) : List Char → Option (List Step)
  | [] => none
  | c :: rest =>
    if c = ']' then do return step (← index) :: (← readSteps rest)
    else if c.isDigit then
      readIndex step (some (10 * index.getD 0 + (c.toNat - '0'.toNat))) rest
    else none
termination_by structural input => input

end

/-- An index ends with its bracket, however many of its digits have been read. -/
theorem readIndex_digits (step : Nat → Step) {digits : List Char}
    (each : ∀ c ∈ digits, c.isDigit = true) (index : Nat) (rest : List Char) :
    readIndex step (some index) (digits ++ ']' :: rest) =
      (readSteps rest).map (step (Nat.ofDigitChars 10 digits index) :: ·) := by
  -- Each digit is added to the index, until the bracket that closes it.
  induction digits generalizing index with
  | nil =>
    cases steps : readSteps rest <;> simp [readIndex, steps]
  | cons c digits ih =>
    obtain ⟨digit, others⟩ := List.forall_mem_cons.mp each
    have apart : c ≠ ']' := by
      rintro rfl
      exact absurd digit (by decide)
    rw [List.cons_append, readIndex, if_neg apart, if_pos digit, ih others, Option.getD_some,
      Nat.ofDigitChars_cons]

/-- The digits of an index are read back as the index. -/
theorem readIndex_toString (step : Nat → Step) (index : Nat) (rest : List Char) :
    readIndex step none ((toString index).toList ++ ']' :: rest) =
      (readSteps rest).map (step index :: ·) := by
  have digits : (toString index).toList = Nat.toDigits 10 index := String.toList_ofList
  have each : ∀ c ∈ Nat.toDigits 10 index, c.isDigit = true := fun c =>
    Nat.isDigit_of_mem_toDigits (by decide) (by decide)
  rw [digits]
  -- There is a first digit, and from then on some digits have been read.
  obtain ⟨c, others, split⟩ :=
    List.exists_cons_of_ne_nil (Nat.toDigits_ne_nil (n := index) (b := 10))
  rw [split] at each
  have whole : Nat.ofDigitChars 10 (c :: others) 0 = index := by
    rw [← split, Nat.ofDigitChars_ten_toDigits]
  obtain ⟨digit, later⟩ := List.forall_mem_cons.mp each
  have apart : c ≠ ']' := by
    rintro rfl
    exact absurd digit (by decide)
  rw [split, List.cons_append, readIndex, if_neg apart, if_pos digit, readIndex_digits step later,
    ← whole, Nat.ofDigitChars_cons]
  rfl

/-- An index stands in brackets behind the mark of its list. -/
theorem toList_bracketed (mark : String) (index : Nat) (rest : List Char) :
    (toString mark ++ toString index ++ toString "]").toList ++ rest =
      mark.toList ++ ((toString index).toList ++ ']' :: rest) := by
  -- Only the bracketing of the concatenation differs.
  have close : (toString "]").toList = [']'] := rfl
  rw [String.toList_append, String.toList_append, close, List.append_assoc, List.append_assoc]
  rfl

/-- The text of a step is read back, whatever follows it. -/
theorem readSteps_text {step : Step} (structural : step.isNodeStep = true) (rest : List Char) :
    readSteps (step.text.toList ++ rest) = (readSteps rest).map (step :: ·) := by
  -- The three steps with an index are read up to the closing bracket; a negation is a word of its
  -- own.
  cases step with
  | item index =>
    rw [text, toList_bracketed]
    exact readIndex_toString .item index rest
  | all index =>
    rw [text, toList_bracketed]
    exact readIndex_toString .all index rest
  | any index =>
    rw [text, toList_bracketed]
    exact readIndex_toString .any index rest
  | negated => rfl
  | name => exact nomatch structural

/-- The texts of steps in a row are read back. -/
theorem readSteps_texts {steps : List Step} (structural : ∀ step ∈ steps, step.isNodeStep = true) :
    readSteps (steps.flatMap fun step => step.text.toList) = some steps := by
  -- By induction on the steps: each is read off the front of what is left.
  induction steps with
  | nil => rfl
  | cons step rest ih =>
    obtain ⟨here, later⟩ := List.forall_mem_cons.mp structural
    rw [List.flatMap_cons, readSteps_text here, ih later]
    rfl

/-- The step to a child of a conjunction or a disjunction. -/
def child (shape : Shape) (index : Nat) : Step :=
  if shape = .all then .all index else .any index

/-- A step to a child leads to a node. -/
theorem isNodeStep_child (shape : Shape) (index : Nat) : (child shape index).isNodeStep = true := by
  unfold child
  split <;> rfl

end Step

namespace Position

/-- The steps that the text of a position spells behind the name of its root. -/
def stepsAfter (root text : String) : Option (List Step) :=
  if root.toList.isPrefixOf text.toList then Step.readSteps (text.toList.drop root.toList.length)
  else none

/-- A step down is one step more. -/
theorem length_down (position : Position) (step : Step) :
    (position.down step).steps.length = position.steps.length + 1 := by
  simp [down]

/-- The steps to a node are read back from the text of its position. -/
theorem stepsAfter_text {position : Position}
    (structural : ∀ step ∈ position.steps, step.isNodeStep = true) :
    stepsAfter position.root position.text = some position.steps := by
  -- The root is what the text starts with, and the steps are what comes behind it.
  have spelled : position.text.toList =
      position.root.toList ++ position.steps.flatMap fun step => step.text.toList := by
    simp [text, String.toList_join, List.flatMap_map]
  have starts : position.root.toList.isPrefixOf position.text.toList = true := by
    rw [spelled, List.isPrefixOf_iff_prefix]
    exact List.prefix_append _ _
  rw [stepsAfter, if_pos starts, spelled, List.drop_left, Step.readSteps_texts structural]

/-- The text of a position says something, if its root does or there are steps. -/
theorem isEmpty_text {position : Position}
    (structural : ∀ step ∈ position.steps, step.isNodeStep = true)
    (named : position.root.toList ≠ [] ∨ position.steps ≠ []) :
    position.text.isEmpty = false := by
  cases empty : position.text.isEmpty with
  | false => rfl
  | true =>
    -- An empty text starts with no name, and spells no steps.
    have read := stepsAfter_text structural
    rw [String.isEmpty_iff.mp empty] at read
    unfold stepsAfter at read
    split at read
    · rename_i starts
      have rootless : position.root.toList = [] :=
        List.prefix_nil.mp (List.isPrefixOf_iff_prefix.mp starts)
      rw [rootless] at read
      have stepless : [] = position.steps := Option.some.inj read
      exact absurd stepless.symm (named.resolve_left (absurd rootless))
    · exact nomatch read

end Position

namespace Value

/-- The items of a list or a tuple. -/
def listed? : Value → Option (List Value)
  | .list items | .tuple items => some items
  | _ => none

/-- What a node has for a combinator; in a map it is what the key holds, null included. -/
def partOf? (shape : Shape) : Value → Option Value
  | .node _ _ _ all any negated =>
    let part :=
      match shape with
      | .leaf => .null
      | .all => all
      | .any => any
      | .not => negated
    if part.isNull then none else some part
  | .map entries => if shape = .leaf then none else lookup? shape.word entries
  | _ => none

/-- The node that stands one step below another. -/
def below? (step : Step) (value : Value) : Option Value :=
  match step with
  | .all index => do (← (← value.partOf? .all).listed?)[index]?
  | .any index => do (← (← value.partOf? .any).listed?)[index]?
  | .negated => value.partOf? .not
  | _ => none

/-- The node to which steps lead from a node. -/
def follow : List Step → Value → Option Value
  | [], value => some value
  | step :: rest, value => do follow rest (← value.below? step)

/-- The node to which steps lead from a list of nodes. -/
def followAmong : List Step → List Value → Option Value
  | .item index :: rest, items => do follow rest (← items[index]?)
  | _, _ => none

section Steps

variable {value : Value}

/-- A list or a tuple is not null. -/
theorem isNull_of_listed {items : List Value} (listed : value.listed? = some items) :
    value.isNull = false := by
  -- Only a list or a tuple has items.
  cases value with
  | null => exact nomatch listed
  | _ => rfl

/-- A part that is there is not null, and stands for itself. -/
theorem ite_isNull_eq_some {part held : Value} :
    (if part.isNull then none else some part) = some held ↔ part.isNull = false ∧ part = held := by
  cases null : part.isNull <;> simp

/-- A step to a child leads to the item at its index. -/
theorem below?_child {shape : Shape} {held : Value} {items : List Value}
    (joins : shape = .all ∨ shape = .any) (has : value.partOf? shape = some held)
    (listed : held.listed? = some items) (index : Nat) :
    value.below? (.child shape index) = items[index]? := by
  -- A child is looked up in three stages, of which the first two are known.
  rcases joins with rfl | rfl
  · show (do (← (← value.partOf? .all).listed?)[index]?) = _
    rw [has, Option.bind_eq_bind, Option.bind_some, listed]
    rfl
  · show (do (← (← value.partOf? .any).listed?)[index]?) = _
    rw [has, Option.bind_eq_bind, Option.bind_some, listed]
    rfl

/-- What a step leads to, all steps behind it lead on from. -/
theorem follow_cons {step : Step} {next : Value} (leads : value.below? step = some next)
    (rest : List Step) : follow (step :: rest) value = follow rest next := by
  rw [follow, leads]
  rfl

end Steps

end Value

/-- A node and the position where it stands. -/
structure Place where
  position : Position
  node : Value

namespace Place

mutual

/-- A node at a position and all nodes below it, each of them before those below it. -/
def preorder (position : Position) : Value → List Place
  | .node field relation value all any negated =>
    ⟨position, .node field relation value all any negated⟩ ::
      (preorderWithin position .all all ++ (preorderWithin position .any any ++
        if negated.isNull then [] else preorder (position.down .negated) negated))
  | other => [⟨position, other⟩]
termination_by structural input => input

/-- All nodes in a list or a tuple and below its items. -/
def preorderWithin (position : Position) (step : Nat → Step) : Value → List Place
  | .list items => preorderAmong position step 0 items
  | .tuple items => preorderAmong position step 0 items
  | _ => []
termination_by structural input => input

/-- All nodes among items, the first of which stands at `index`, and below them. -/
def preorderAmong (position : Position) (step : Nat → Step) (index : Nat) :
    List Value → List Place
  | [] => []
  | item :: rest =>
    preorder (position.down (step index)) item ++ preorderAmong position step (index + 1) rest
termination_by structural input => input

end

/-- Nothing stands in the children that a node does not have. -/
theorem preorderWithin_null {children : Value} (null : children.isNull = true)
    (position : Position) (step : Nat → Step) : preorderWithin position step children = [] := by
  -- Null holds no children to walk over.
  cases children with
  | null => rfl
  | _ => exact nomatch null

/-- A place is where steps lead from a node at a position. -/
def LedTo (place : Place) (position : Position) (value : Value) : Prop :=
  ∃ steps, place.position = ⟨position.root, position.steps ++ steps⟩ ∧
    (∀ step ∈ steps, step.isNodeStep = true) ∧ value.follow steps = some place.node

/-- A place is where steps lead from an item at its index. -/
def LedToAmong (place : Place) (position : Position) (step : Nat → Step) (index : Nat)
    (items : List Value) : Prop :=
  ∃ offset item, items[offset]? = some item ∧
    place.LedTo (position.down (step (index + offset))) item

section LedTo

variable {place : Place} {position : Position} {value : Value}

/-- No steps lead from a node to the node itself. -/
theorem ledTo_self : LedTo ⟨position, value⟩ position value :=
  ⟨[], by rw [List.append_nil], nofun, rfl⟩

/-- What is led to from one step below a node is led to from the node. -/
theorem LedTo.below {step : Step} {next : Value} (structural : step.isNodeStep = true)
    (leads : value.below? step = some next) (led : place.LedTo (position.down step) next) :
    place.LedTo position value := by
  -- One more step is put in front of those that lead to the place.
  obtain ⟨steps, stands, each, reached⟩ := led
  refine ⟨step :: steps, ?_, List.forall_mem_cons.mpr ⟨structural, each⟩, ?_⟩
  · rw [stands]
    simp [Position.down]
  · rw [Value.follow_cons leads, reached]

/-- What is led to from the items of a combinator is led to from the node that has it. -/
theorem LedToAmong.below {step : Nat → Step} {items : List Value}
    (structural : ∀ index, (step index).isNodeStep = true)
    (leads : ∀ index, value.below? (step index) = items[index]?)
    (led : place.LedToAmong position step 0 items) : place.LedTo position value := by
  -- The items are numbered from zero, so that the offset is the index of the step.
  obtain ⟨offset, item, there, led⟩ := led
  rw [Nat.zero_add] at led
  exact led.below (structural offset) ((leads offset).trans there)

/-- What is led to from a later item is led to from the items with another one before them. -/
theorem LedToAmong.cons {step : Nat → Step} {index : Nat} {first : Value} {rest : List Value}
    (led : place.LedToAmong position step (index + 1) rest) :
    place.LedToAmong position step index (first :: rest) := by
  -- Behind one more item, every offset is one larger.
  obtain ⟨offset, item, there, led⟩ := led
  refine ⟨offset + 1, item, there, ?_⟩
  rwa [Nat.add_right_comm, Nat.add_assoc] at led

mutual

/-- Every node below a node is where steps lead from it. -/
theorem ledTo_of_mem_preorder (value : Value) {position : Position}
    (member : place ∈ preorder position value) : place.LedTo position value := by
  -- A node stands before its parts; whatever is below stands in one of the three.
  cases value with
  | node field relation value all any negated =>
    rcases List.mem_cons.mp member with rfl | below
    · exact ledTo_self
    rcases List.mem_append.mp below with inAll | below
    · refine ledTo_of_mem_preorderWithin all inAll (fun _ => rfl) fun items listed => ?_
      have has : (Value.node field relation value all any negated).partOf? .all = some all :=
        Value.ite_isNull_eq_some.mpr ⟨Value.isNull_of_listed listed, rfl⟩
      exact Value.below?_child (.inl rfl) has listed
    rcases List.mem_append.mp below with inAny | inNegated
    · refine ledTo_of_mem_preorderWithin any inAny (fun _ => rfl) fun items listed => ?_
      have has : (Value.node field relation value all any negated).partOf? .any = some any :=
        Value.ite_isNull_eq_some.mpr ⟨Value.isNull_of_listed listed, rfl⟩
      exact Value.below?_child (.inr rfl) has listed
    · split at inNegated
      · exact nomatch inNegated
      · rename_i there
        have structural : Step.negated.isNodeStep = true := rfl
        exact (ledTo_of_mem_preorder negated inNegated).below structural (if_neg there)
  | _ =>
    obtain rfl := List.mem_singleton.mp member
    exact ledTo_self
termination_by structural value

/-- Every node in the children of a node is where steps lead from the node that has them. -/
theorem ledTo_of_mem_preorderWithin (children : Value) {position : Position} {step : Nat → Step}
    {value : Value} (member : place ∈ preorderWithin position step children)
    (structural : ∀ index, (step index).isNodeStep = true)
    (leads : ∀ items, children.listed? = some items → ∀ index,
      value.below? (step index) = items[index]?) : place.LedTo position value := by
  -- Only lists and tuples are walked over.
  cases children with
  | list items =>
    exact (ledToAmong_of_mem_preorderAmong items member).below structural (leads items rfl)
  | tuple items =>
    exact (ledToAmong_of_mem_preorderAmong items member).below structural (leads items rfl)
  | _ => exact nomatch member
termination_by structural children

/-- Every node among items or below them is where steps lead from one of them. -/
theorem ledToAmong_of_mem_preorderAmong (items : List Value) {position : Position}
    {step : Nat → Step} {index : Nat} (member : place ∈ preorderAmong position step index items) :
    place.LedToAmong position step index items := by
  -- The place stands in the first item or behind it.
  match items with
  | [] => exact nomatch member
  | item :: rest =>
    rcases List.mem_append.mp member with first | later
    · exact ⟨0, item, rfl, ledTo_of_mem_preorder item first⟩
    · exact (ledToAmong_of_mem_preorderAmong rest later).cons
termination_by structural items

end

end LedTo

end Place

end ContentQuery
