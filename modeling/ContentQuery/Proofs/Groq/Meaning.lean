import ContentQuery.Compiler
import ContentQuery.Proofs.Groq.Rendering
import ContentQuery.Proofs.Groq.Statement

/-! What conditions ask for, and that a filter compiled without notices asks for the same. -/

namespace ContentQuery.Groq

/-- Whether an atom is said to be true; blanks at its end say nothing. -/
def Says (truth : String → Prop) (atom : String) : Prop :=
  truth (trimmed atom)

/-- The number of literals that a JSON value gives to choose from: its items, or itself alone. -/
def choices : Value → Nat
  | .list items => items.length
  | _ => 1

/-- The number of placeholders that a leaf takes: one, or one for each choice. -/
def slotsOfLeaf (operator : Operator) (value : Value) : Nat :=
  match operator with
  | .defined | .undefined => 0
  -- Choices are bound one by one, and the form of the literal tells how many there are.
  | .containsAny | .containsAll =>
    match value.toJson with
    | .ok json => choices json
    | .error _ => 1
  | _ => 1

/-- What a leaf on a path asks for, its placeholders being those from a slot on. -/
def PathLeafHolds (truth : String → Prop) (slot : Nat) (field : String) (value : Value) :
    Operator → Prop
  | .equal => Says truth (comparisonAtom field .equal slot)
  | .notEqual => Says truth (comparisonAtom field .notEqual slot)
  | .greater => Says truth (comparisonAtom field .greater slot)
  | .atLeast => Says truth (comparisonAtom field .atLeast slot)
  | .less => Says truth (comparisonAtom field .less slot)
  | .atMost => Says truth (comparisonAtom field .atMost slot)
  | .matches | .startsWith | .endsWith => Says truth (comparisonAtom field .matching slot)
  | .oneOf => Says truth (comparisonAtom field .within slot)
  | .noneOf => ¬ Says truth (comparisonAtom field .within slot)
  | .contains => Says truth (containmentAtom slot field)
  | .containsAny =>
    ∃ index < slotsOfLeaf .containsAny value, Says truth (containmentAtom (slot + index) field)
  | .containsAll =>
    ∀ index < slotsOfLeaf .containsAll value, Says truth (containmentAtom (slot + index) field)
  | .references =>
    Says truth (pathReferenceAtom field slot) ∨ Says truth (listReferenceAtom field slot)
  | .defined => Says truth (definedAtom field)
  | .undefined => ¬ Says truth (definedAtom field)

/-- What a leaf asks for; without a field it can only ask for references from anywhere. -/
def LeafHolds (truth : String → Prop) (slot : Nat) (field : Value) (comparison : Comparison)
    (value : Value) : Prop :=
  match field, comparison with
  | .text path, .known operator => PathLeafHolds truth slot path value operator
  | .null, .known .references => Says truth (referenceAtom slot)
  | _, _ => False

mutual

/-- The number of placeholders that a condition takes. -/
def slotsOf : Condition → Nat
  | .leaf _ (.known operator) value => slotsOfLeaf operator value
  | .leaf _ (.unknown _) _ => 0
  | .all conditions => slotsOfAll conditions
  | .any conditions => slotsOfAll conditions
  | .not condition => slotsOf condition
termination_by structural input => input

/-- The number of placeholders that conditions take together. -/
def slotsOfAll : List Condition → Nat
  | [] => 0
  | condition :: rest => slotsOf condition + slotsOfAll rest
termination_by structural input => input

end

mutual

/-- What a condition asks for, its placeholders being those from a slot on. -/
def Holds (truth : String → Prop) (slot : Nat) : Condition → Prop
  | .leaf field comparison value => LeafHolds truth slot field comparison value
  | .all conditions => AllHold truth slot conditions
  | .any conditions => AnyHolds truth slot conditions
  | .not condition => ¬ Holds truth slot condition
termination_by structural input => input

/-- What conditions ask for together; each takes the placeholders behind those before it. -/
def AllHold (truth : String → Prop) (slot : Nat) : List Condition → Prop
  | [] => True
  | condition :: rest => Holds truth slot condition ∧ AllHold truth (slot + slotsOf condition) rest
termination_by structural input => input

/-- What conditions ask for as alternatives. -/
def AnyHolds (truth : String → Prop) (slot : Nat) : List Condition → Prop
  | [] => False
  | condition :: rest => Holds truth slot condition ∨ AnyHolds truth (slot + slotsOf condition) rest
termination_by structural input => input

end

/-- Conditions in two lists take the placeholders of the first list first. -/
theorem allHold_append (truth : String → Prop) (slot : Nat) (first second : List Condition) :
    AllHold truth slot (first ++ second) ↔
      AllHold truth slot first ∧ AllHold truth (slot + slotsOfAll first) second := by
  -- The second list starts at the slot behind the whole first list.
  induction first generalizing slot with
  | nil => simp [AllHold, slotsOfAll]
  | cons condition rest ih => simp [AllHold, slotsOfAll, ih, and_assoc, Nat.add_assoc]

/-- An expression that can be read, and that says what is meant. -/
def Expresses (expression : Expression) (meaning : (String → Prop) → Prop) : Prop :=
  expression.WellFormed ∧ ∀ truth, expression.formula.Holds truth ↔ meaning truth

/-- The same can be said in other words. -/
theorem Expresses.mono {expression : Expression} {meaning other : (String → Prop) → Prop}
    (expresses : Expresses expression meaning) (same : ∀ truth, meaning truth ↔ other truth) :
    Expresses expression other :=
  ⟨expresses.1, fun truth => (expresses.2 truth).trans (same truth)⟩

section Atoms

variable {field : String} (valid : pathGrammar.isPath field = true)
include valid

/-- A comparison says what its atom says. -/
theorem expresses_compare (relation : Relation) (slot : Nat) :
    Expresses (.compare field relation slot)
      fun truth => Says truth (comparisonAtom field relation slot) := by
  -- The reference to the placeholder tells the atom from the constants.
  have mark : '$' ∈ (comparisonAtom field relation slot).toList := by
    simp [comparisonAtom, Context.slotReference]
  exact ⟨valid, holds_atom (by decide) mark⟩

/-- A containment says what its atom says. -/
theorem expresses_holds (slot : Nat) :
    Expresses (.holds slot field) fun truth => Says truth (containmentAtom slot field) := by
  have mark : '$' ∈ (containmentAtom slot field).toList := by
    simp [containmentAtom, Context.slotReference]
  exact ⟨valid, holds_atom (by decide) mark⟩

/-- A test for a field says what its atom says. -/
theorem expresses_defined :
    Expresses (.defined field) fun truth => Says truth (definedAtom field) := by
  have mark : '(' ∈ (definedAtom field).toList := by simp [definedAtom]
  exact ⟨valid, holds_atom (by decide) mark⟩

/-- A test for the lack of a field denies its atom. -/
theorem expresses_undefined :
    Expresses (.undefined field) fun truth => ¬ Says truth (definedAtom field) :=
  ⟨valid, fun truth => not_congr ((expresses_defined valid).2 truth)⟩

/-- A reference through a field is one of two atoms. -/
theorem expresses_refersThrough (slot : Nat) :
    Expresses (.refersThrough field slot) fun truth =>
      Says truth (pathReferenceAtom field slot) ∨ Says truth (listReferenceAtom field slot) := by
  have mark : '$' ∈ (pathReferenceAtom field slot).toList := by
    simp [pathReferenceAtom, Context.slotReference]
  have mark' : '$' ∈ (listReferenceAtom field slot).toList := by
    simp [listReferenceAtom, Context.slotReference]
  -- The two atoms are those of a single reference and of a list of references.
  exact ⟨valid, fun truth =>
    or_congr (holds_atom (by decide) mark truth) (holds_atom (by decide) mark' truth)⟩

end Atoms

/-- A reference from anywhere says what its atom says. -/
theorem expresses_refers (slot : Nat) :
    Expresses (.refers slot) fun truth => Says truth (referenceAtom slot) := by
  have mark : '(' ∈ (referenceAtom slot).toList := by simp [referenceAtom]
  exact ⟨trivial, holds_atom (by decide) mark⟩

/-- A test for a type says what its atom says. -/
theorem expresses_hasType (name : String) :
    Expresses (.hasType name) fun truth => Says truth (typeAtom name) := by
  have mark : '_' ∈ (typeAtom name).toList := by simp [typeAtom]
  exact ⟨trivial, holds_atom (by decide) mark⟩

/-- A test for several types says what its atom says. -/
theorem expresses_hasTypeAmong (names : List String) :
    Expresses (.hasTypeAmong names) fun truth => Says truth (typesAtom names) := by
  have mark : '_' ∈ (typesAtom names).toList := by simp [typesAtom]
  exact ⟨trivial, holds_atom (by decide) mark⟩

/-- The test that a document is published denies the atom for drafts. -/
theorem expresses_published : Expresses .published fun truth => ¬ Says truth draftAtom := by
  have mark : '_' ∈ draftAtom.toList := by simp [draftAtom]
  exact ⟨trivial, fun truth => not_congr (holds_atom (by decide) mark truth)⟩

/-- A negation denies what is negated. -/
theorem Expresses.not {expression : Expression} {meaning : (String → Prop) → Prop}
    (expresses : Expresses expression meaning) :
    Expresses (.not expression) fun truth => ¬ meaning truth :=
  ⟨expresses.1, fun truth => not_congr (expresses.2 truth)⟩

/-- What always holds says nothing. -/
theorem expresses_always : Expresses .always fun _ => True :=
  ⟨trivial, fun _ => iff_true_intro (Or.inl rfl)⟩

/-- What never holds says something false. -/
theorem expresses_never : Expresses .never fun _ => False :=
  ⟨trivial, fun _ => iff_false_intro (by simp [Expression.formula, Formula.Holds])⟩

/-- A conjunction of some expressions says what they say together. -/
theorem expresses_all {operands : List Expression} (some_ : operands ≠ [])
    (formed : ∀ operand ∈ operands, operand.WellFormed) :
    Expresses (.all operands) fun truth => ∀ operand ∈ operands, operand.formula.Holds truth :=
  ⟨⟨some_, (Expression.allWellFormed_iff operands).mpr formed⟩,
    fun truth => by simp [Expression.formula]⟩

/-- A disjunction of some expressions says what one of them says. -/
theorem expresses_any {operands : List Expression} (some_ : operands ≠ [])
    (formed : ∀ operand ∈ operands, operand.WellFormed) :
    Expresses (.any operands) fun truth => ∃ operand ∈ operands, operand.formula.Holds truth :=
  ⟨⟨some_, (Expression.allWellFormed_iff operands).mpr formed⟩,
    fun truth => by simp [Expression.formula]⟩

/-- A placeholder of a row is as far behind the first as it has others before it. -/
theorem mem_row {slot count index : Nat} :
    index ∈ List.range' slot count ↔ ∃ offset < count, index = slot + offset := by
  simp [List.mem_range']

/-- One of the containments of a row of placeholders holds, or each of them, where their atoms do. -/
theorem row_holds {field : String} (valid : pathGrammar.isPath field = true)
    (truth : String → Prop) (slot count : Nat) :
    ((∃ operand ∈ (List.range' slot count).map (Expression.holds · field),
        operand.formula.Holds truth) ↔
      ∃ index < count, Says truth (containmentAtom (slot + index) field)) ∧
    ((∀ operand ∈ (List.range' slot count).map (Expression.holds · field),
        operand.formula.Holds truth) ↔
      ∀ index < count, Says truth (containmentAtom (slot + index) field)) := by
  have atom (slot : Nat) : (Expression.holds slot field).formula.Holds truth ↔
      Says truth (containmentAtom slot field) := (expresses_holds valid slot).2 truth
  -- The operands of the row are told by how far they are behind its first placeholder.
  constructor
  · simp only [List.mem_map, exists_exists_and_eq_and, mem_row, atom]
    exact ⟨fun ⟨_, ⟨index, small, same⟩, said⟩ => ⟨index, small, same ▸ said⟩,
      fun ⟨index, small, said⟩ => ⟨_, ⟨index, small, rfl⟩, said⟩⟩
  · simp only [List.forall_mem_map, mem_row, atom]
    exact ⟨fun every index small => every _ ⟨index, small, rfl⟩,
      fun every _ ⟨index, small, same⟩ => same ▸ every index small⟩

/-- The containments of a row of placeholders can be read. -/
theorem formed_row {field : String} (valid : pathGrammar.isPath field = true) (slot count : Nat) :
    ∀ operand ∈ (List.range' slot count).map (Expression.holds · field), operand.WellFormed := by
  intro operand member
  obtain ⟨_, -, rfl⟩ := List.mem_map.mp member
  exact valid

/-- A single containment is bound to the slot it stands in. -/
theorem ensures_containment (field : String) (json : Value) (slot : Nat) :
    (containment field json).Ensures slot fun expression literals =>
      expression = .holds slot field ∧ literals.length = 1 := by
  refine .bind (ensures_placeholder json slot) fun given literals ⟨here, one⟩ => .pure ?_
  simp [here, one]

/-- What a choice among literals comes to: nothing, one containment, or several in a row. -/
theorem ensures_containments (field : String) (vacant : Expression)
    (join : List Expression → Expression) (json : Value) (slot : Nat) :
    (containments field vacant join json).Ensures slot fun expression literals =>
      literals.length = choices json ∧
        (choices json = 0 ∧ expression = vacant ∨
          choices json = 1 ∧ expression = .holds slot field ∨
          choices json ≠ 0 ∧ expression =
            join ((List.range' slot (choices json)).map (Expression.holds · field))) := by
  -- The cases are those of the JSON form: an empty list, a list, or a single value.
  unfold containments
  split
  · exact .pure ⟨rfl, Or.inl ⟨rfl, rfl⟩⟩
  · rename_i items some_
    refine .bind (ensures_placeholders items slot) fun given literals ⟨row, many⟩ => .pure ?_
    rw [List.append_nil, row]
    exact ⟨many, Or.inr (Or.inr ⟨by simpa [choices] using some_, rfl⟩)⟩
  · rename_i empty other
    have one : choices json = 1 := by
      cases json with
      | list items => exact absurd rfl (other items)
      | _ => rfl
    rw [one]
    exact (ensures_containment field json slot).mono fun expression literals ⟨same, alone⟩ =>
      ⟨alone, Or.inr (Or.inl ⟨rfl, same⟩)⟩

section Leaves

variable {field : String} (valid : pathGrammar.isPath field = true)
include valid

/-- A bare comparison says what its atom says. -/
theorem ensures_compared (relation : Relation) (literal : Value) (slot : Nat) :
    (compareWith field relation literal).Ensures slot fun expression literals =>
      literals.length = 1 ∧
        Expresses expression fun truth => Says truth (comparisonAtom field relation slot) := by
  refine (ensures_compareWith field relation literal slot).mono ?_
  rintro expression literals ⟨rfl, one⟩
  exact ⟨one, expresses_compare valid relation slot⟩

/-- Membership is one comparison, whether a list is given or a single literal. -/
theorem ensures_within (json : Value) (slot : Nat) :
    (within field json).Ensures slot fun expression literals =>
      literals.length = 1 ∧
        Expresses expression fun truth => Says truth (comparisonAtom field .within slot) := by
  unfold within
  split <;> exact ensures_compared valid _ _ slot

/-- A pattern is one comparison. -/
theorem ensures_pattern (spell : String → String) (json : Value) (slot : Nat) :
    (pattern field spell json).Ensures slot fun expression literals =>
      literals.length = 1 ∧
        Expresses expression fun truth => Says truth (comparisonAtom field .matching slot) := by
  unfold pattern
  split
  · exact ensures_compared valid _ _ slot
  · exact .throw

/--
Containment of some literals says of their atoms what a way to choose among them means: of none what
is put in the place of a choice, of one the atom itself, of several what they are joined to.
-/
theorem ensures_choice {vacant : Expression} {join : List Expression → Expression}
    {slot : Nat} (meaning : Nat → (Nat → Prop) → Prop)
    (none_ : Expresses vacant fun truth =>
      meaning 0 fun index => Says truth (containmentAtom (slot + index) field))
    (one : ∀ said, meaning 1 said ↔ said 0)
    (several : ∀ count, count ≠ 0 →
      Expresses (join ((List.range' slot count).map (Expression.holds · field))) fun truth =>
        meaning count fun index => Says truth (containmentAtom (slot + index) field))
    (json : Value) :
    (containments field vacant join json).Ensures slot fun expression literals =>
      literals.length = choices json ∧ Expresses expression fun truth =>
        meaning (choices json) fun index => Says truth (containmentAtom (slot + index) field) := by
  -- No choice, one or several: each is written in its own way, and each says what the meaning asks
  -- for its number.
  refine (ensures_containments field vacant join json slot).mono ?_
  rintro expression literals ⟨many, ⟨nothing, rfl⟩ | ⟨single, rfl⟩ | ⟨some_, rfl⟩⟩
  · rw [nothing] at many ⊢
    exact ⟨many, none_⟩
  · rw [single] at many ⊢
    exact ⟨many, (expresses_holds valid slot).mono fun truth => (one fun index =>
      Says truth (containmentAtom (slot + index) field)).symm⟩
  · exact ⟨many, several _ some_⟩

/-- The comparison of a path with a literal says what the leaf asks for. -/
theorem ensures_comparison {value json : Value} (form : value.toJson = .ok json)
    (operator : Operator) (slot : Nat) :
    (comparison field json operator).Ensures slot fun expression literals =>
      literals.length = slotsOfLeaf operator value ∧
        Expresses expression fun truth => PathLeafHolds truth slot field value operator := by
  cases operator with
  | equal | notEqual | greater | atLeast | less | atMost | «matches» =>
    exact ensures_compared valid _ json slot
  | oneOf => exact ensures_within valid json slot
  | noneOf =>
    refine .bind (ensures_within valid json slot) fun expression literals ⟨one, said⟩ => .pure ?_
    exact ⟨by simpa [slotsOfLeaf] using one, said.not⟩
  | contains =>
    refine (ensures_containment field json slot).mono ?_
    rintro expression literals ⟨rfl, one⟩
    exact ⟨one, expresses_holds valid slot⟩
  | containsAny =>
    -- The placeholders are counted by the form that the literal was found to have.
    have counted : slotsOfLeaf .containsAny value = choices json := by simp [slotsOfLeaf, form]
    have chosen := ensures_choice valid (fun count said => ∃ index < count, said index)
      (expresses_never.mono (by simp)) (by simp) (fun count some_ =>
        (expresses_any (by simpa using some_) (formed_row valid slot count)).mono
          fun truth => (row_holds valid truth slot count).1) json
    simpa [comparison, PathLeafHolds, counted] using chosen
  | containsAll =>
    have counted : slotsOfLeaf .containsAll value = choices json := by simp [slotsOfLeaf, form]
    have chosen := ensures_choice valid (fun count said => ∀ index < count, said index)
      (expresses_always.mono (by simp)) (by simp) (fun count some_ =>
        (expresses_all (by simpa using some_) (formed_row valid slot count)).mono
          fun truth => (row_holds valid truth slot count).2) json
    simpa [comparison, PathLeafHolds, counted] using chosen
  | startsWith | endsWith => exact ensures_pattern valid _ json slot
  | defined => exact .pure ⟨rfl, expresses_defined valid⟩
  | undefined => exact .pure ⟨rfl, expresses_undefined valid⟩
  | references =>
    refine .bind (ensures_placeholder json slot) fun given literals ⟨here, one⟩ => .pure ?_
    rw [List.append_nil, here]
    exact ⟨one, expresses_refersThrough valid slot⟩

/-- The expression of a leaf on a path says what the leaf asks for. -/
theorem ensures_leafExpression (operator : Operator) (value : Value) (slot : Nat) :
    (leafExpression field operator value).Ensures slot fun expression literals =>
      literals.length = slotsOfLeaf operator value ∧
        Expresses expression fun truth => PathLeafHolds truth slot field value operator := by
  have looked : (do comparison field (← ExceptT.mk (pure value.toJson)) operator :
      Literally Expression).Ensures slot fun expression literals =>
        literals.length = slotsOfLeaf operator value ∧
          Expresses expression fun truth => PathLeafHolds truth slot field value operator := by
    have form : Literally.Ensures (ExceptT.mk (pure value.toJson)) slot fun json literals =>
        literals = [] ∧ value.toJson = .ok json := .ofExcept fun _ found => ⟨rfl, found⟩
    refine .bind form fun json literals ⟨none_, found⟩ => ?_
    rw [none_]
    exact ensures_comparison valid found operator slot
  -- Existence checks do not look at their literal, and every other comparison does.
  unfold leafExpression
  split
  · exact .pure ⟨rfl, expresses_defined valid⟩
  · exact .pure ⟨rfl, expresses_undefined valid⟩
  · exact looked

end Leaves

/-- A reference from anywhere is one atom. -/
theorem ensures_referenceExpression (value : Value) (slot : Nat) :
    (referenceExpression value).Ensures slot fun expression literals =>
      literals.length = 1 ∧ Expresses expression fun truth => Says truth (referenceAtom slot) := by
  -- The form takes no slot, and the placeholder takes one.
  have form : Literally.Ensures (ExceptT.mk (pure value.toJson)) slot fun _ literals =>
      literals = [] := .ofExcept fun _ _ => rfl
  refine .bind form fun json none_ empty =>
    .bind (ensures_placeholder json _) fun given literals ⟨here, one⟩ => .pure ?_
  rw [here]
  exact ⟨by simp [empty, one], by simpa [empty] using expresses_refers slot⟩

/--
What a conversion gives can be read; without a notice there is something, and it says what is meant.
-/
def Faithful (slots : Nat) (meaning : (String → Prop) → Prop) (result : Option Expression)
    (literals : List Value) (notices : List Notice) : Prop :=
  (∀ expression, result = some expression → expression.WellFormed) ∧
    (notices = [] → literals.length = slots ∧
      ∃ expression, result = some expression ∧ Expresses expression meaning)

/-- What is dropped with a notice is nothing to be read. -/
theorem faithful_dropped {slots : Nat} {meaning : (String → Prop) → Prop}
    {result : Option Expression} {literals : List Value} {notices : List Notice}
    (nothing : result = none) (noted : notices ≠ []) :
    Faithful slots meaning result literals notices := by
  subst nothing
  exact ⟨fun _ found => (nomatch found), fun silent => absurd silent noted⟩

/-- A literal without a form drops its leaf with a notice, and else the expression stands. -/
theorem ensures_orNotice {field : Value} {operator : Operator} {build : Literally Expression}
    {slot slots : Nat} {meaning : (String → Prop) → Prop}
    (built : build.Ensures slot fun expression literals =>
      literals.length = slots ∧ Expresses expression meaning) :
    (orNotice field operator build).Ensures slot (Faithful slots meaning) := by
  refine .bind built fun result literals notices ⟨silent, met⟩ => ?_
  rw [silent]
  -- A literal that was bound leaves no notice, so that every notice is about the loss.
  cases result with
  | ok expression =>
    obtain ⟨counted, expresses⟩ := met expression rfl
    refine .pure ⟨?_, fun _ => ⟨by simpa using counted, expression, rfl, expresses⟩⟩
    rintro _ ⟨⟩
    exact expresses.1
  | error fault =>
    exact Convert.ensures_dropped.mono fun _ _ _ ⟨nothing, noted⟩ =>
      faithful_dropped nothing (by simpa using noted)

/-- A leaf without a path is dropped with a notice. -/
theorem ensures_dropField {field : Value} {operator : Operator} {slot slots : Nat}
    {meaning : (String → Prop) → Prop} :
    (dropField field operator).Ensures slot (Faithful slots meaning) :=
  Convert.ensures_dropped.mono fun _ _ _ ⟨nothing, noted⟩ => faithful_dropped nothing noted

/-- Without a notice, a leaf is converted to what it asks for. -/
theorem ensures_convertLeaf (field : Value) (comparison : Comparison) (value : Value)
    (slot : Nat) :
    (convertLeaf field comparison value).Ensures slot
      (Faithful (slotsOf (.leaf field comparison value))
        fun truth => LeafHolds truth slot field comparison value) := by
  -- Unknown operators and fields that are no paths are dropped before the literal is looked at.
  cases comparison with
  | unknown word =>
    exact Convert.ensures_dropped.mono fun _ _ _ ⟨nothing, noted⟩ => faithful_dropped nothing noted
  | known operator =>
    cases field with
    | text path =>
      show Convert.Ensures (if pathGrammar.isPath path then _ else _) _ _
      split
      · rename_i valid
        exact ensures_orNotice (ensures_leafExpression valid operator value slot)
      · exact ensures_dropField
    | null =>
      show Convert.Ensures (if operator = .references then _ else _) _ _
      split
      · rename_i refers
        subst refers
        exact ensures_orNotice (ensures_referenceExpression value slot)
      · exact ensures_dropField
    | _ => exact ensures_dropField

end ContentQuery.Groq
