import ContentQuery.Proofs.Alike.Filter
import ContentQuery.Proofs.Groq.Leaf

/-! Literals that are alike take the same expressions, and the same number of placeholders. -/

namespace ContentQuery.Groq

/-- The number of items of a list. -/
def itemCount? : Value → Option Nat
  | .list items => some items.length
  | _ => none

/-- Whether a value is a text. -/
def isText : Value → Bool
  | .text _ => true
  | _ => false

/-- Whether a value has a JSON form. -/
def isFormable (value : Value) : Bool :=
  value.toJson.toOption.isSome

/-- Whether arguments have forms, or the first that has none fails for its form. -/
def canFormAll (arguments : List Value) : Bool :=
  match arguments.mapM Value.toJson with
  | .ok _ => true
  | .error fault => !fault.isUnwritable

/-- What two literals of leaves with one comparison have in common. -/
structure LiteralsAlike (comparison : Comparison) (value value' : Value) : Prop where
  formable : isFormable value = isFormable value'
  /-- A literal that fails for the length of an integer ends the compilation. -/
  written : canForm value = canForm value'
  /-- Containments are about the items of a list. -/
  counted : comparison = .known .containsAny ∨ comparison = .known .containsAll →
    itemCount? (formOf value) = itemCount? (formOf value')
  /-- Patterns are made of texts. -/
  spelled : comparison = .known .startsWith ∨ comparison = .known .endsWith →
    isText (formOf value) = isText (formOf value')
  /-- The list that a membership looks in may be nested too deeply, where its one item is not. -/
  listed : comparison = .known .oneOf ∨ comparison = .known .noneOf →
    isFormable (asList (formOf value)) = isFormable (asList (formOf value'))

/-- What the arguments of two computed fields have in common. -/
structure ArgumentsAlike (arguments arguments' : List Value) : Prop where
  counted : arguments.length = arguments'.length
  formable : arguments.all isFormable = arguments'.all isFormable
  written : canFormAll arguments = canFormAll arguments'

/-- The likeness of literals that the text of a statement depends on. -/
def likeness : Likeness where
  literals := LiteralsAlike
  arguments := ArgumentsAlike
  literals_refl _ _ := ⟨rfl, rfl, fun _ => rfl, fun _ => rfl, fun _ => rfl⟩
  arguments_refl _ := ⟨rfl, rfl, rfl⟩

section Leaf

/-- Lists with as many items have as many choices. -/
theorem choicesOf_length_eq {json json' : Value} (counted : itemCount? json = itemCount? json') :
    (choicesOf json).length = (choicesOf json').length := by
  have length (value : Value) : (choicesOf value).length = (itemCount? value).getD 1 := by
    cases value <;> rfl
  -- What is no list is one choice.
  rw [length, length, counted]

/-- Lists with as many items have the same containments. -/
theorem chosen_eq {json json' : Value} (counted : itemCount? json = itemCount? json')
    (field : String) (slot : Nat) (vacant : Expression) (join : List Expression → Expression) :
    chosen field slot vacant join json = chosen field slot vacant join json' := by
  -- What is chosen depends on the number of items alone.
  have shape (value : Value) : chosen field slot vacant join value =
      match itemCount? value with
      | none => .holds slot field
      | some 0 => vacant
      | some count => join ((List.range' slot count).map (.holds · field)) := by
    cases value with
    | list items => cases items <;> rfl
    | _ => rfl
  rw [shape, shape, counted]

/-- Literals that are both bound or both not, and as many of them. -/
def BoundAlike (bound bound' : Except FormatFault (List Value)) : Prop :=
  bound.toOption.map List.length = bound'.toOption.map List.length

/-- One literal is bound where it has a form. -/
theorem boundAlike_map {α : Type} {form form' : Except FormatFault α} {make : α → Value}
    (formable : form.toOption.isSome = form'.toOption.isSome) :
    BoundAlike (form.map fun given => [make given]) (form'.map fun given => [make given]) := by
  -- What is bound to the slot may differ, as long as one literal is bound in both or none.
  unfold BoundAlike
  cases form <;> cases form'
  · rfl
  · exact nomatch formable
  · exact nomatch formable
  · rfl

/-- A pattern is bound where the literal is a text. -/
theorem boundAlike_pattern (spell : String → String) {json json' : Value}
    (spelled : isText json = isText json') :
    BoundAlike ((patternOf spell json).map ([·])) ((patternOf spell json').map ([·])) := by
  have isSome (value : Value) : (patternOf spell value).toOption.isSome = isText value := by
    cases value <;> rfl
  exact boundAlike_map (by rw [isSome, isSome, spelled])

variable {operator : Operator} {value value' : Value}

/-- A literal has the form that it is converted to. -/
theorem formOf_eq {json : Value} (made : value.toJson = .ok json) : formOf value = json := by
  rw [formOf, made]
  rfl

/-- A leaf on a path binds as many literals as one that is like it. -/
theorem LiteralsAlike.boundByLeaf (alike : LiteralsAlike (.known operator) value value') :
    BoundAlike (boundByLeaf operator value) (boundByLeaf operator value') := by
  have formable := alike.formable
  unfold isFormable at formable
  unfold Groq.boundByLeaf
  cases made : value.toJson with
  | error fault =>
    -- Without a form, only the tests for existence are there, which bind nothing.
    cases made' : value'.toJson with
    | error fault' => cases operator <;> rfl
    | ok json' =>
      rw [made, made'] at formable
      exact nomatch formable
  | ok json =>
    cases made' : value'.toJson with
    | error fault' =>
      rw [made, made'] at formable
      exact nomatch formable
    | ok json' =>
      obtain ⟨-, -, counted, spelled, listed⟩ := alike
      rw [formOf_eq made, formOf_eq made'] at counted spelled listed
      cases operator with
      | oneOf => exact boundAlike_map (listed (Or.inl rfl))
      | noneOf => exact boundAlike_map (listed (Or.inr rfl))
      | containsAny => exact congrArg some (choicesOf_length_eq (counted (Or.inl rfl)))
      | containsAll => exact congrArg some (choicesOf_length_eq (counted (Or.inr rfl)))
      | startsWith => exact boundAlike_pattern _ (spelled (Or.inl rfl))
      | endsWith => exact boundAlike_pattern _ (spelled (Or.inr rfl))
      | _ => rfl

/-- A leaf on a path has the same expression as one that is like it. -/
theorem LiteralsAlike.expressionOf (alike : LiteralsAlike (.known operator) value value')
    (path : String) (slot : Nat) : expressionOf path slot operator (formOf value) =
      expressionOf path slot operator (formOf value') := by
  -- Only the two operators that choose look at how many items there are.
  cases operator with
  | containsAny => exact chosen_eq (alike.counted (Or.inl rfl)) path slot _ _
  | containsAll => exact chosen_eq (alike.counted (Or.inr rfl)) path slot _ _
  | _ => rfl

/-- Leaves with literals that are alike are both dropped, or bind as many literals. -/
theorem LiteralsAlike.boundOf? {comparison : Comparison}
    (alike : LiteralsAlike comparison value value') (field : Value) :
    (boundOf? field comparison value).map List.length =
      (boundOf? field comparison value').map List.length := by
  -- A leaf binds as many literals in both: what decides it is the field and the operator.
  cases comparison with
  | unknown word => rfl
  | known operator =>
    unfold Groq.boundOf?
    cases field with
    | text path =>
      dsimp only
      split
      · exact alike.boundByLeaf
      · rfl
    | null =>
      dsimp only
      split
      · exact boundAlike_map alike.formable
      · rfl
    | _ => rfl

/-- Leaves with literals that are alike have the same expression. -/
theorem LiteralsAlike.leafOf {comparison : Comparison}
    (alike : LiteralsAlike comparison value value') (field : Value) (slot : Nat) :
    leafOf field comparison value slot = leafOf field comparison value' slot := by
  -- Only a path and a known operator make an expression, and those are the same.
  cases comparison with
  | unknown word => rfl
  | known operator =>
    cases field with
    | text path => exact alike.expressionOf path slot
    | _ => rfl

/-- Leaves with literals that are alike are converted to the same, or are both dropped. -/
theorem agree_convertLeaf {comparison : Comparison}
    (alike : LiteralsAlike comparison value value') (field : Value) (slot : Nat) :
    Convert.Agree Eq (convertLeaf field comparison value) (convertLeaf field comparison value')
      slot := by
  -- The leaf is dropped on both sides or on neither, and where it is kept it takes the same slots.
  have outcome := convertsLeaf field comparison value
  have outcome' := convertsLeaf field comparison value'
  have counted := alike.boundOf? field
  cases bound : Groq.boundOf? field comparison value with
  | none =>
    -- Nothing is bound on the one side, and so nothing on the other.
    rw [bound] at outcome counted
    rw [Option.map_eq_none_iff.mp counted.symm] at outcome'
    obtain ⟨_, -, gives⟩ := outcome
    obtain ⟨_, -, gives'⟩ := outcome'
    exact .of_gives (gives slot) (gives' slot) rfl rfl
  | some literals =>
    rw [bound] at outcome counted
    obtain ⟨literals', bound', counted'⟩ := Option.map_eq_some_iff.mp counted.symm
    rw [bound'] at outcome'
    exact .of_gives (outcome slot) (outcome' slot) (congrArg some (alike.leafOf field slot))
      counted'.symm

/-- Leaves with literals that are alike both fail for the length of an integer, or neither does. -/
theorem LiteralsAlike.canConvertLeaf_eq {comparison : Comparison}
    (alike : LiteralsAlike comparison value value') (field : Value) :
    canConvertLeaf field comparison value = canConvertLeaf field comparison value' := by
  -- The literal is looked at through its form only.
  unfold canConvertLeaf
  rw [alike.written]

end Leaf

section Filter

mutual

/-- Conditions that are alike both fail for the length of an integer, or neither does. -/
theorem canConvert_eq : {condition condition' : Condition} →
    Condition.Alike likeness condition condition' → canConvert condition = canConvert condition'
  -- By induction on the two conditions.
  | _, _, .leaf literals => LiteralsAlike.canConvertLeaf_eq literals _
  | _, _, .all inside => canConvertAll_eq inside
  | _, _, .any inside => canConvertAll_eq inside
  | _, _, .not inside => by rw [canConvert, canConvert, canConvert_eq inside]
termination_by structural _ _ alike => alike

/-- Neither do lists of conditions that are alike differ in that. -/
theorem canConvertAll_eq : {conditions conditions' : List Condition} →
    Condition.AllAlike likeness conditions conditions' →
      canConvertAll conditions = canConvertAll conditions'
  | _, _, .nil => rfl
  | _, _, .cons first others => by
    rw [canConvertAll, canConvertAll, canConvert_eq first, canConvertAll_eq others]
termination_by structural _ _ alike => alike

end

mutual

/-- Conditions that are alike are converted to the same. -/
theorem agree_convert : {condition condition' : Condition} →
    Condition.Alike likeness condition condition' → (slot : Nat) →
      Convert.Agree Eq (convert condition) (convert condition') slot
  -- By induction on the two conditions; a connective asks for the number of its members only.
  | _, _, .leaf literals, slot => agree_convertLeaf literals _ slot
  | .all conditions, .all conditions', .all inside, slot => by
    unfold convert
    rw [inside.length_eq]
    refine .bind (agree_convertAll inside slot) ?_
    rintro parts _ slot rfl
    exact .pure rfl
  | .any conditions, .any conditions', .any inside, slot => by
    unfold convert
    rw [inside.length_eq]
    refine .bind (agree_convertAll inside slot) ?_
    rintro parts _ slot rfl
    exact .pure rfl
  | _, _, .not inside, slot => .bind (agree_convert inside slot) (by
    rintro operand _ slot rfl
    exact .pure rfl)
termination_by structural _ _ alike => alike

/-- Lists of conditions that are alike are converted to the same. -/
theorem agree_convertAll : {conditions conditions' : List Condition} →
    Condition.AllAlike likeness conditions conditions' → (slot : Nat) →
      Convert.Agree Eq (convertAll conditions) (convertAll conditions') slot
  -- By induction on the conditions, which leave the same slot to those behind them.
  | _, _, .nil, _ => .pure rfl
  | _, _, .cons first others, slot => .bind (agree_convert first slot) (by
    rintro expression _ slot rfl
    refine .bind (agree_convertAll others slot) ?_
    rintro parts _ slot rfl
    exact .pure rfl)
termination_by structural _ _ alike => alike

end

/-- The filters of queries with conditions that are alike are converted to the same. -/
theorem agree_filterParts (settings : Settings) (query : Query) {own own' : List Condition}
    (alike : Condition.AllAlike likeness own own') (slot : Nat) :
    Convert.Agree Eq (filterParts settings query own) (filterParts settings query own') slot := by
  -- The conditions of the settings follow the query's own, from the same slot.
  have everywhere (slot : Nat) :
      Convert.Agree Eq (globalClause settings) (globalClause settings) slot := by
    unfold globalClause
    split
    · exact .pure rfl
    · exact agree_convertAll (.refl _) slot
  refine .bind (agree_convertAll alike slot) ?_
  rintro parts _ slot rfl
  refine .bind (everywhere slot) ?_
  rintro others _ slot rfl
  exact .pure rfl

end Filter

end ContentQuery.Groq
