import ContentQuery.Groq.Attribute
import ContentQuery.Proofs.Groq.Literals
import ContentQuery.Proofs.JsonForm
import ContentQuery.Proofs.Pruning

/-! Leaves: which literals a comparison can carry, and what expression and placeholders it takes. -/

namespace ContentQuery.Groq

namespace Literally

variable {α β : Type}

/-- From a slot on, a conversion gives a result or a fault, and binds literals. -/
def Gives (build : Literally α) (slot : Nat) (result : Except FormatFault α)
    (literals : List Value) : Prop :=
  Convert.Gives build.run slot result literals []

/-- A result that is given at once binds no literal. -/
theorem gives_pure (given : α) (slot : Nat) : Gives (pure given) slot (.ok given) [] :=
  Convert.gives_pure _ slot

/-- A fault binds no literal. -/
theorem gives_throw (fault : FormatFault) (slot : Nat) :
    Gives (throw fault : Literally α) slot (.error fault) [] :=
  Convert.gives_pure _ slot

/-- A form that a literal may not have binds no literal. -/
theorem gives_ofExcept (form : Except FormatFault α) (slot : Nat) :
    Gives (ExceptT.mk (Pure.pure form)) slot form [] :=
  Convert.gives_pure _ slot

/-- A literal is bound to the slot. -/
theorem gives_bindLiteral (literal : Value) (slot : Nat) :
    Gives (ExceptT.lift (Convert.bind literal)) slot (.ok slot) [literal] := by
  unfold Gives
  rw [ExceptT.run_lift, ← bind_pure_comp]
  exact (Convert.gives_bind literal slot).bind (Convert.gives_pure _ _)

/-- A fault of the first of two conversions ends both. -/
theorem Gives.fault {build : Literally α} {next : α → Literally β} {slot : Nat}
    {fault : FormatFault} {literals : List Value}
    (gives : build.Gives slot (.error fault) literals) :
    Gives (build >>= next) slot (.error fault) literals := by
  unfold Gives
  rw [ExceptT.run_bind, ← List.append_nil literals]
  exact Convert.Gives.bind gives (Convert.gives_pure _ _)

/-- The second of two conversions starts at the slot that the first has led to. -/
theorem Gives.bind {build : Literally α} {next : α → Literally β} {slot : Nat} {given : α}
    {result : Except FormatFault β} {literals literals' : List Value}
    (gives : build.Gives slot (.ok given) literals)
    (gives' : (next given).Gives (slot + literals.length) result literals') :
    Gives (build >>= next) slot result (literals ++ literals') := by
  unfold Gives
  rw [ExceptT.run_bind]
  exact Convert.Gives.bind gives gives'

end Literally

/-- A literal that is its own form is bound as it is. -/
theorem gives_placeholder {json : Value} (own : json.toJson = .ok json) (slot : Nat) :
    (placeholder json).Gives slot (.ok slot) [json] := by
  unfold placeholder
  rw [own]
  exact (Literally.gives_ofExcept (.ok json) slot).bind (Literally.gives_bindLiteral json _)

/-- Literals that are their own forms are bound one after the other. -/
theorem gives_placeholders {values : List Value} (own : ∀ value ∈ values, value.toJson = .ok value)
    (slot : Nat) :
    (placeholders values).Gives slot (.ok (List.range' slot values.length)) values := by
  induction values generalizing slot with
  | nil => exact Literally.gives_pure [] slot
  | cons value rest ih =>
    obtain ⟨first, others⟩ := List.forall_mem_cons.mp own
    -- The first literal takes the slot, and the others take those behind it.
    have ended : Literally.Gives (do return slot :: (← placeholders rest)) (slot + 1)
        (.ok (List.range' slot (rest.length + 1))) (rest ++ []) :=
      (ih others (slot + 1)).bind (Literally.gives_pure _ _)
    rw [List.append_nil] at ended
    exact (gives_placeholder first slot).bind ended

/-- A comparison with a literal that is its own form binds the literal. -/
theorem gives_compareWith (field : String) (relation : Relation) {json : Value}
    (own : json.toJson = .ok json) (slot : Nat) :
    (compareWith field relation json).Gives slot (.ok (.compare field relation slot)) [json] :=
  (gives_placeholder own slot).bind (Literally.gives_pure _ _)

/-- The list that a membership looks in: a list as it is, and any other literal as its one item. -/
def asList : Value → Value
  | .list items => .list items
  | single => .list [single]

/-- The literals that containments are about: the items of a list, and any other literal itself. -/
def choicesOf : Value → List Value
  | .list items => items
  | single => [single]

/-- The text pattern that is bound for a literal, which has to be a text. -/
def patternOf (spell : String → String) : Value → Except FormatFault Value
  | .text words => .ok (.text (spell words))
  | _ => .error .patternNotText

section Single

variable {json : Value} (single : ∀ items, json = .list items → False)
include single

/-- What is no list is looked for in a list of one item. -/
theorem asList_single : asList json = .list [json] := by
  unfold asList
  split
  · exact (single _ rfl).elim
  · rfl

/-- What is no list is the only choice. -/
theorem choicesOf_single : choicesOf json = [json] := by
  unfold choicesOf
  split
  · exact (single _ rfl).elim
  · rfl

end Single

/-- The literals that a comparison binds for a literal in JSON form, if it can carry the literal. -/
def boundBy (operator : Operator) (json : Value) : Except FormatFault (List Value) :=
  match operator with
  | .defined | .undefined => .ok []
  -- The list around a literal lies one level above it, which may be one level too many.
  | .oneOf | .noneOf => (asList json).toJson.map ([·])
  | .containsAny | .containsAll => .ok (choicesOf json)
  | .startsWith => (patternOf (· ++ "*") json).map ([·])
  | .endsWith => (patternOf ("*" ++ ·) json).map ([·])
  | _ => .ok [json]

/-- Containments from a slot on, joined in a way that also says what no literals mean. -/
def chosen (field : String) (slot : Nat) (vacant : Expression)
    (join : List Expression → Expression) : Value → Expression
  | .list [] => vacant
  | .list items => join ((List.range' slot items.length).map (Expression.holds · field))
  | _ => .holds slot field

/-- A literal that is no list is contained by itself. -/
theorem chosen_single {json : Value} (single : ∀ items, json = .list items → False)
    (field : String) (slot : Nat) (vacant : Expression) (join : List Expression → Expression) :
    chosen field slot vacant join json = .holds slot field := by
  -- What is no list is a single choice.
  unfold chosen
  split
  · exact (single _ rfl).elim
  · exact (single _ rfl).elim
  · rfl

/-- The expression of a comparison with a literal in JSON form, its placeholders from a slot on. -/
def expressionOf (field : String) (slot : Nat) (operator : Operator) (json : Value) :
    Expression :=
  match operator with
  | .equal => .compare field .equal slot
  | .notEqual => .compare field .notEqual slot
  | .greater => .compare field .greater slot
  | .atLeast => .compare field .atLeast slot
  | .less => .compare field .less slot
  | .atMost => .compare field .atMost slot
  | .matches | .startsWith | .endsWith => .compare field .matching slot
  | .oneOf => .compare field .within slot
  | .noneOf => .not (.compare field .within slot)
  | .contains => .holds slot field
  | .containsAny => chosen field slot .never .any json
  | .containsAll => chosen field slot .always .all json
  | .references => .refersThrough field slot
  | .defined => .defined field
  | .undefined => .undefined field

/-- A conversion that binds literals for an expression, or breaks off before it binds any. -/
def Literally.Binds (build : Literally Expression) (slot : Nat)
    (bound : Except FormatFault (List Value)) (expression : Expression) : Prop :=
  match bound with
  | .ok literals => build.Gives slot (.ok expression) literals
  | .error fault => build.Gives slot (.error fault) []

/-- What is made of an expression binds what the expression binds. -/
theorem Literally.Binds.map {build : Literally Expression} {slot : Nat}
    {bound : Except FormatFault (List Value)} {expression : Expression}
    (binds : build.Binds slot bound expression) (f : Expression → Expression) :
    Binds (do return f (← build)) slot bound (f expression) := by
  cases bound with
  | error fault => exact Gives.fault binds
  | ok literals =>
    -- What is made of the expression binds nothing more.
    have ended : Gives (build >>= fun given => Pure.pure (f given)) slot (.ok (f expression))
        (literals ++ []) := Gives.bind binds (gives_pure _ _)
    rwa [List.append_nil] at ended

/-- A comparison with what is its own form, if it has one, binds the form. -/
theorem binds_compareWith (field : String) (relation : Relation) {value : Value}
    (stable : ∀ form, value.toJson = .ok form → form = value) (slot : Nat) :
    (compareWith field relation value).Binds slot (value.toJson.map ([·]))
      (.compare field relation slot) := by
  cases made : value.toJson with
  | error fault =>
    -- What has no form breaks off before a slot is taken.
    have broken : (placeholder value).Gives slot (.error fault) [] := by
      unfold placeholder
      rw [made]
      exact (Literally.gives_ofExcept (.error fault) slot).fault
    exact broken.fault
  | ok form =>
    obtain rfl := stable form made
    exact gives_compareWith field relation made slot

/-- A text pattern binds the pattern, or breaks off where the literal is no text. -/
theorem binds_pattern (field : String) (spell : String → String) (json : Value) (slot : Nat) :
    (pattern field spell json).Binds slot ((patternOf spell json).map ([·]))
      (.compare field .matching slot) := by
  -- A pattern is made from a text only.
  unfold pattern
  split
  · exact gives_compareWith field .matching rfl slot
  · rename_i other
    unfold patternOf
    split
    · exact (other _ rfl).elim
    · exact Literally.gives_throw _ slot

section Form

variable {json : Value} (own : json.toJson = .ok json)
include own

/-- The list that a membership looks in is its own form, if it has one. -/
theorem asList_stable {form : Value} (made : (asList json).toJson = .ok form) :
    form = asList json := by
  unfold asList at made ⊢
  split at made
  -- A list is its own form already, and one item that is makes a list that is.
  · exact (Except.ok.inj (own.symm.trans made)).symm
  · refine Value.eq_of_toJson_list (fun item member => ?_) made
    rw [List.mem_singleton.mp member]
    exact own

/-- A membership binds the list that it looks in, or breaks off where that is too deep. -/
theorem binds_within (field : String) (slot : Nat) :
    (within field json).Binds slot ((asList json).toJson.map ([·]))
      (.compare field .within slot) := by
  -- A single value stands for the list of itself.
  have same : within field json = compareWith field .within (asList json) := by
    unfold within
    split
    · rfl
    · rename_i single
      rw [asList_single single]
  rw [same]
  exact binds_compareWith field .within (fun _ => asList_stable own) slot

/-- Containments bind the literals that they are about. -/
theorem gives_containments (field : String) (vacant : Expression)
    (join : List Expression → Expression) (slot : Nat) :
    (containments field vacant join json).Gives slot (.ok (chosen field slot vacant join json))
      (choicesOf json) := by
  unfold containments
  split
  · exact Literally.gives_pure vacant slot
  · rename_i items some_
    -- An empty list was taken care of, so that there is something to join.
    have joined : chosen field slot vacant join (.list items) =
        join ((List.range' slot items.length).map (.holds · field)) := by
      cases items with
      | nil => exact (some_ rfl).elim
      | cons => rfl
    have bound := gives_placeholders (fun item member => Value.toJson_of_mem own member) slot
    rw [joined, show choicesOf (.list items) = items ++ [] from (List.append_nil items).symm]
    exact bound.bind (Literally.gives_pure _ _)
  · rename_i none_ single
    rw [chosen_single single, choicesOf_single single]
    exact (gives_placeholder own slot).bind (Literally.gives_pure _ _)

/-- A comparison with a literal in JSON form binds what it can carry of it. -/
theorem binds_comparison (field : String) (operator : Operator) (slot : Nat) :
    (comparison field json operator).Binds slot (boundBy operator json)
      (expressionOf field slot operator json) := by
  -- The operators fall into groups by what they bind: the value itself, a list of it, its items, a
  -- pattern, or nothing.
  cases operator with
  | equal | notEqual | greater | atLeast | less | atMost | «matches» =>
    exact gives_compareWith field _ own slot
  | oneOf => exact binds_within own field slot
  | noneOf => exact (binds_within own field slot).map .not
  | contains => exact (gives_placeholder own slot).bind (Literally.gives_pure _ _)
  | containsAny | containsAll => exact gives_containments own field _ _ slot
  | startsWith | endsWith => exact binds_pattern field _ json slot
  | references => exact (gives_placeholder own slot).bind (Literally.gives_pure _ _)
  | defined | undefined => exact Literally.gives_pure _ slot

end Form

/-- A literal that is needed in JSON form binds what its form does, if it has one. -/
theorem binds_form {value : Value} {next : Value → Literally Expression}
    {bound : Value → Except FormatFault (List Value)} {expression : Expression} {slot : Nat}
    (binds : ∀ json, value.toJson = .ok json → (next json).Binds slot (bound json) expression) :
    Literally.Binds (do next (← ExceptT.mk (pure value.toJson))) slot (value.toJson >>= bound)
      expression := by
  cases made : value.toJson with
  | error fault => exact (Literally.gives_ofExcept (.error fault) slot).fault
  | ok json => exact binds json made

/-- The JSON form of a literal, or null where it has none. -/
def formOf (value : Value) : Value :=
  value.toJson.toOption.getD .null

/-- The literals that a leaf on a path binds, if it can carry its literal. -/
def boundByLeaf (operator : Operator) (value : Value) : Except FormatFault (List Value) :=
  match operator with
  | .defined | .undefined => .ok []
  | other => value.toJson >>= boundBy other

/-- A leaf on a path binds what it can carry of its literal. -/
theorem binds_leafExpression (field : String) (operator : Operator) (value : Value) (slot : Nat) :
    (leafExpression field operator value).Binds slot (boundByLeaf operator value)
      (expressionOf field slot operator (formOf value)) := by
  -- All but the tests for existence look at the form of the literal.
  have formed (other : Operator) : Literally.Binds
      (do comparison field (← ExceptT.mk (pure value.toJson)) other) slot
      (value.toJson >>= boundBy other) (expressionOf field slot other (formOf value)) :=
    binds_form fun json made => by
      rw [formOf, made]
      exact binds_comparison (Value.toJson_of_form made) field other slot
  cases operator <;> first | exact Literally.gives_pure _ slot | exact formed _

/-- A reference from anywhere binds the form of its literal, if it has one. -/
theorem binds_referenceExpression (value : Value) (slot : Nat) :
    (referenceExpression value).Binds slot (value.toJson >>= fun json => .ok [json])
      (.refers slot) :=
  binds_form fun json made => by
    have bound : (placeholder json).Gives slot (.ok slot) [json] :=
      gives_placeholder (Value.toJson_of_form made) slot
    exact bound.bind (Literally.gives_pure _ _)

/-- The literals that a leaf binds, if it can be converted at all. -/
def boundOf? (field : Value) (comparison : Comparison) (value : Value) : Option (List Value) :=
  match comparison with
  | .unknown _ => none
  | .known operator =>
    match field with
    | .text path =>
      if pathGrammar.isPath path then (boundByLeaf operator value).toOption else none
    -- Without a field, only a reference can be asked for.
    | .null =>
      if operator = .references then (value.toJson >>= fun json => .ok [json]).toOption else none
    | _ => none

/-- The expression of a leaf that can be converted, its placeholders from a slot on. -/
def leafOf (field : Value) (comparison : Comparison) (value : Value) (slot : Nat) : Expression :=
  match comparison, field with
  | .known operator, .text path => expressionOf path slot operator (formOf value)
  | _, _ => .refers slot

/-- Nothing is left of a leaf but one notice about it, wherever it stands. -/
def IsDropped (field : Value) (comparison : Comparison) (convert : Convert (Option Expression)) :
    Prop :=
  ∃ notice, NamesLeaf field comparison notice ∧ ∀ slot, convert.Gives slot none [] [notice]

/-- A leaf is converted to an expression that binds literals, or dropped. -/
def ConvertsLeaf (field : Value) (comparison : Comparison) (convert : Convert (Option Expression))
    (bound : Option (List Value)) (expression : Nat → Expression) : Prop :=
  match bound with
  | some literals => ∀ slot, convert.Gives slot (some (expression slot)) literals []
  | none => IsDropped field comparison convert

/-- A leaf without a path is dropped. -/
theorem isDropped_dropField (field : Value) (operator : Operator) :
    IsDropped field (.known operator) (dropField field operator) :=
  ⟨_, ⟨rfl, rfl, by simp⟩, fun slot =>
    (Convert.gives_degrade _ _ _ _ slot).bind (Convert.gives_pure none _)⟩

/-- A leaf is dropped where its literal cannot be carried, and converted where it can. -/
theorem convertsLeaf_orNotice (field : Value) (operator : Operator) {build : Literally Expression}
    {bound : Except FormatFault (List Value)} {expression : Nat → Expression}
    (binds : ∀ slot, build.Binds slot bound (expression slot)) :
    ConvertsLeaf field (.known operator) (orNotice field operator build) bound.toOption
      expression := by
  cases bound with
  | ok literals =>
    intro slot
    -- With a result there is no notice, and with a fault no literal.
    have ended : (orNotice field operator build).Gives slot (some (expression slot))
        (literals ++ []) [] := Convert.Gives.bind (binds slot) (Convert.gives_pure _ _)
    rwa [List.append_nil] at ended
  | error fault =>
    refine ⟨_, ?_, fun slot => Convert.Gives.bind (binds slot)
      ((Convert.gives_degrade _ _ _ _ _).bind (Convert.gives_pure none _))⟩
    exact ⟨rfl, rfl, by simp⟩

/-- What becomes of a leaf does not depend on where it stands. -/
theorem convertsLeaf (field : Value) (comparison : Comparison) (value : Value) :
    ConvertsLeaf field comparison (convertLeaf field comparison value)
      (boundOf? field comparison value) (leafOf field comparison value) := by
  -- The operator is known or not, and then the field is a path, is missing, or is something else;
  -- only two of these cases bind a literal.
  cases comparison with
  | unknown word =>
    exact ⟨_, ⟨rfl, rfl, by simp⟩, fun slot =>
      (Convert.gives_degrade _ _ _ _ slot).bind (Convert.gives_pure none _)⟩
  | known operator =>
    unfold convertLeaf boundOf?
    cases field with
    | text path =>
      dsimp only
      split
      · exact convertsLeaf_orNotice _ _ (binds_leafExpression _ _ value)
      · exact isDropped_dropField _ _
    | null =>
      dsimp only
      split
      · rename_i reference
        subst reference
        exact convertsLeaf_orNotice _ _ (binds_referenceExpression value)
      · exact isDropped_dropField _ _
    | _ => exact isDropped_dropField _ _

/-- Arguments that all have a form are converted one by one, and the first without one is told. -/
theorem gives_forms (arguments : List Value) (slot : Nat) :
    Literally.Gives (arguments.mapM fun argument => ExceptT.mk (pure argument.toJson)) slot
      (arguments.mapM Value.toJson) [] := by
  induction arguments generalizing slot with
  | nil => exact Literally.gives_pure [] slot
  | cons argument rest ih =>
    rw [List.mapM_cons, List.mapM_cons]
    cases made : argument.toJson with
    | error fault => exact (Literally.gives_ofExcept (.error fault) slot).fault
    | ok json =>
      -- Looking at a form takes no slot, so that the others are looked at from the same one.
      refine (Literally.gives_ofExcept (.ok json) slot).bind ?_
      cases others : rest.mapM Value.toJson with
      | error fault =>
        have broken := ih slot
        rw [others] at broken
        exact broken.fault
      | ok forms =>
        have given := ih slot
        rw [others] at given
        exact given.bind (Literally.gives_pure _ _)

/-- Arguments are bound to slots in a row where each of them has a form. -/
theorem gives_bindArguments (arguments : List Value) (slot : Nat) :
    (bindArguments arguments).Gives slot
      ((arguments.mapM Value.toJson).map fun _ => List.range' slot arguments.length)
      ((arguments.mapM Value.toJson).toOption.getD []) := by
  have formed := gives_forms arguments slot
  cases made : arguments.mapM Value.toJson with
  | error fault =>
    rw [made] at formed
    exact formed.fault
  | ok forms =>
    rw [made] at formed
    -- What is bound are forms, which are their own.
    have own : ∀ form ∈ forms, form.toJson = .ok form := fun form member => by
      obtain ⟨argument, -, given⟩ := (mem_of_mapM made).2 form member
      exact Value.toJson_of_form given
    have bound := formed.bind (gives_placeholders own slot)
    rwa [length_of_mapM made] at bound

end ContentQuery.Groq
