import ContentQuery.Proofs.Groq.Rendering
import ContentQuery.Proofs.Groq.SilentTexts

/-! The placeholders that a statement is made of are the ones that its text refers to. -/

namespace ContentQuery.Groq

namespace Expression

mutual

/-- The slots of the placeholders in an expression, as often as they are written. -/
def slots : Expression → List Nat
  | .compare _ _ slot => [slot]
  | .holds slot _ => [slot]
  | .refers slot => [slot]
  -- A reference through a field is looked for in the field and in the list that it may hold.
  | .refersThrough _ slot => [slot, slot]
  | .not operand => slots operand
  | .all operands => allSlots operands
  | .any operands => allSlots operands
  | _ => []
termination_by structural input => input

/-- The slots of the placeholders in expressions. -/
def allSlots : List Expression → List Nat
  | [] => []
  | operand :: rest => slots operand ++ allSlots rest
termination_by structural input => input

end

/-- The slots in expressions are those of each of them. -/
@[simp] theorem allSlots_eq_flatMap (operands : List Expression) :
    allSlots operands = operands.flatMap slots := by
  induction operands with
  | nil => rfl
  | cons operand rest ih => simp [allSlots, ih]

end Expression

namespace Attribute

mutual

/-- The slots of the placeholders in an attribute. -/
def slots : Attribute → List Nat
  | .call _ _ slots => slots
  | .nested _ attributes => allSlots attributes
  | .expanded _ attributes => allSlots attributes
  | _ => []
termination_by structural input => input

/-- The slots of the placeholders in attributes. -/
def allSlots : List Attribute → List Nat
  | [] => []
  | head :: rest => slots head ++ allSlots rest
termination_by structural input => input

end

/-- The slots in attributes are those of each of them. -/
@[simp] theorem allSlots_eq_flatMap (attributes : List Attribute) :
    allSlots attributes = attributes.flatMap slots := by
  induction attributes with
  | nil => rfl
  | cons head rest ih => simp [allSlots, ih]

/-- The texts of attributes are those of each of them. -/
@[simp] theorem texts_eq_map (attributes : List Attribute) :
    texts attributes = attributes.map text := by
  induction attributes with
  | nil => rfl
  | cons head rest ih => simp [texts, ih]

mutual

/-- Whether the names, paths and functions of an attribute are ones. -/
def WellFormed : Attribute → Prop
  | .plain name => isName name = true
  | .path _ target => pathGrammar.isPath target = true
  | .call _ function _ => isFunctionName function = true
  | .nested name attributes => isName name = true ∧ AllWellFormed attributes
  | .resolved name => isName name = true
  | .expanded name attributes => isName name = true ∧ AllWellFormed attributes
termination_by structural input => input

/-- Whether each of several attributes is well-formed. -/
def AllWellFormed : List Attribute → Prop
  | [] => True
  | head :: rest => WellFormed head ∧ AllWellFormed rest
termination_by structural input => input

end

/-- Attributes are well-formed when each of them is. -/
@[simp] theorem allWellFormed_iff (attributes : List Attribute) :
    AllWellFormed attributes ↔ ∀ head ∈ attributes, head.WellFormed := by
  induction attributes with
  | nil => simp [AllWellFormed]
  | cons head rest ih => simp [AllWellFormed, ih]

end Attribute

/-- The names of placeholders. -/
def namesOf (slots : List Nat) : List String :=
  slots.map Context.slotName

section Rules

variable {text opening closing : String} {names : List String}

/-- Silent texts on both sides add no name to those of a text. -/
theorem refers_between (opens : Silent opening.toList) (closes : Silent closing.toList)
    (ends : Ends closing.toList) (refers : Refers text.toList names) :
    Refers (opening ++ text ++ closing).toList names := by
  rw [String.toList_append, String.toList_append]
  exact (opens.before refers).before ends closes

/-- Texts with a separator between each two of them refer to the names of all of them. -/
theorem refers_joined {α : Type} {separator : String} (silent : Silent separator.toList)
    (ends : separator.toList.head?.any (!isNameTail ·) = true) {parts : List α}
    {write : α → String} {names : α → List String}
    (refers : ∀ part ∈ parts, Refers (write part).toList (names part)) :
    Refers (separator.intercalate (parts.map write)).toList (parts.flatMap names) := by
  rw [String.toList_intercalate, List.map_map]
  exact refers_intercalate silent ends refers

/-- A text between two others, or nothing in its place, refers to the names of the text. -/
theorem refers_enclosed (opens : Silent opening.toList) (closes : Silent closing.toList)
    (ends : Ends closing.toList) (refers : Refers text.toList names) :
    Refers (enclosed opening text closing).toList names := by
  -- Nothing at all is written when the text is empty.
  unfold enclosed
  split
  · rename_i empty
    rw [String.isEmpty_iff.mp empty] at refers
    exact refers
  · exact refers_between opens closes ends refers

end Rules

/-- A silent text between two others, or nothing in its place, is silent. -/
theorem silent_enclosed {opening text closing : String} (opens : Silent opening.toList)
    (silent : Silent text.toList) (closes : Silent closing.toList) :
    Silent (enclosed opening text closing).toList := by
  -- Nothing at all is written when the text is empty.
  unfold enclosed
  split
  · exact silent_words (by decide)
  · rw [String.toList_append, String.toList_append]
    exact (opens.append silent).append closes

/-- The names of the slots of several parts are those of each of them. -/
theorem namesOf_flatMap {α : Type} (parts : List α) (slots : α → List Nat) :
    namesOf (parts.flatMap slots) = parts.flatMap fun part => namesOf (slots part) := by
  simp [namesOf, List.map_flatMap]

/-- A JSON array of strings is silent. -/
theorem silent_jsonStrings (texts : List String) : Silent (Text.jsonStrings texts).toList := by
  refine silent_bracketed (silent_words (by decide)) (silent_words (by decide)) ?_
  intro part member
  obtain ⟨text, -, rfl⟩ := List.mem_map.mp member
  exact silent_jsonString text

/-- A comparison with a placeholder refers to it. -/
theorem refers_comparison {field : String} (valid : pathGrammar.isPath field = true)
    (relation : Relation) (slot : Nat) :
    Refers (comparisonAtom field relation slot).toList [Context.slotName slot] := by
  -- Only the placeholder at the end is a reference, and nothing stands behind it.
  have word : Silent relation.text.toList := by cases relation <;> exact silent_words (by decide)
  have blank : Silent " ".toList := silent_words (by decide)
  unfold comparisonAtom
  simp only [String.toList_append, List.append_assoc]
  exact (silent_path valid).before <| blank.before <| word.before <| blank.before <|
    refers_slotReference slot

/-- A placeholder, words behind it, a path and words behind the path refer to the placeholder. -/
theorem refers_containment {field between behind : String}
    (valid : pathGrammar.isPath field = true) (slot : Nat)
    (ends : between.toList.head?.any (!isNameTail ·) = true) (silent : Silent between.toList)
    (silent' : Silent behind.toList) :
    Refers (Context.slotReference slot ++ between ++ field ++ behind).toList
      [Context.slotName slot] := by
  simp only [String.toList_append, List.append_assoc]
  exact (refers_slotReference slot).before (ends_words ends _)
    (silent.append ((silent_path valid).append silent'))

/-- A reference through a field refers to its placeholder twice. -/
theorem refers_pathReference {field : String} (valid : pathGrammar.isPath field = true)
    (slot : Nat) :
    Refers (Expression.refersThrough field slot).text.toList
      [Context.slotName slot, Context.slotName slot] := by
  have path := silent_path valid
  have blank : Silent " || ".toList := silent_words (by decide)
  -- The item of a list and the whole field are compared with the same placeholder.
  have item : Refers (Context.slotReference slot ++ " in " ++ field ++ "[]._ref)").toList
      [Context.slotName slot] :=
    refers_containment valid slot (by decide) (silent_words (by decide)) (silent_words (by decide))
  have whole : Refers ("(" ++ field ++ "._ref == " ++ Context.slotReference slot).toList
      [Context.slotName slot] := by
    simp only [String.toList_append, List.append_assoc]
    exact (silent_words (by decide)).before <| path.before <|
      (silent_words (by decide)).before (refers_slotReference slot)
  have written : (Expression.refersThrough field slot).text.toList =
      ("(" ++ field ++ "._ref == " ++ Context.slotReference slot).toList ++ (" || ".toList ++
        (Context.slotReference slot ++ " in " ++ field ++ "[]._ref)").toList) := by
    simp [Expression.text]
  -- The bars end the first reference, and the blank behind the second ends that one.
  rw [written]
  exact whole.append (ends_words (by decide) _) (blank.before item)

mutual

/-- The text of a well-formed expression refers to its placeholders. -/
theorem refers_text : (expression : Expression) → expression.WellFormed →
    Refers expression.text.toList (namesOf expression.slots)
  -- By induction on the expression. A slot is written as a reference wherever the expression names
  -- one, and what stands between is silent.
  | .always, _ | .never, _ => (silent_words (by decide)).refers
  | .published, _ => by
    have written : Expression.published.text.toList = "!(_id in path(".toList ++
        ((Text.jsonString "drafts.**").toList ++ "))".toList) := by decide
    rw [written]
    exact ((silent_words (by decide)).append
      ((silent_jsonString _).append (silent_words (by decide)))).refers
  | .hasType name, _ => by
    unfold Expression.text
    rw [String.toList_append]
    exact ((silent_words (by decide)).append (silent_jsonString name)).refers
  | .hasTypeAmong names, _ => by
    unfold Expression.text
    rw [String.toList_append]
    exact ((silent_words (by decide)).append (silent_jsonStrings names)).refers
  | .compare field relation slot, valid => refers_comparison valid relation slot
  | .holds slot field, valid => by
    have written : (Expression.holds slot field).text =
        Context.slotReference slot ++ " in " ++ field ++ "" := by
      rw [String.append_empty]
      rfl
    rw [written]
    exact refers_containment valid slot (by decide) (silent_words (by decide))
      (silent_words (by decide))
  | .defined field, valid | .undefined field, valid =>
    refers_between (silent_words (by decide)) (silent_words (by decide)) (by decide)
      (silent_path valid).refers
  | .refers slot, _ =>
    refers_between (silent_words (by decide)) (silent_words (by decide)) (by decide)
      (refers_slotReference slot)
  | .refersThrough field slot, valid => refers_pathReference valid slot
  | .not operand, formed =>
    refers_between (silent_words (by decide)) (silent_words (by decide)) (by decide)
      (refers_text operand formed)
  | .all operands, ⟨_, formed⟩ => by
    have each := refers_texts operands formed
    unfold Expression.text Expression.slots
    rw [Expression.texts_eq_map, Expression.allSlots_eq_flatMap, namesOf_flatMap]
    exact refers_between (silent_words (by decide)) (silent_words (by decide)) (by decide)
      (refers_joined (silent_words (by decide)) (by decide) each)
  | .any operands, ⟨_, formed⟩ => by
    have each := refers_texts operands formed
    unfold Expression.text Expression.slots
    rw [Expression.texts_eq_map, Expression.allSlots_eq_flatMap, namesOf_flatMap]
    exact refers_between (silent_words (by decide)) (silent_words (by decide)) (by decide)
      (refers_joined (silent_words (by decide)) (by decide) each)
termination_by structural expression => expression

/-- The texts of well-formed expressions refer to their placeholders. -/
theorem refers_texts : (operands : List Expression) → Expression.AllWellFormed operands →
    ∀ operand ∈ operands, Refers operand.text.toList (namesOf operand.slots)
  | [], _ => nofun
  | operand :: rest, ⟨formed, others⟩ =>
    List.forall_mem_cons.mpr ⟨refers_text operand formed, refers_texts rest others⟩
termination_by structural operands => operands

end

/-- The text of a clause refers to the placeholders of its parts. -/
theorem refers_clauseText {parts : List Expression} (formed : ∀ part ∈ parts, part.WellFormed) :
    Refers (Expression.clauseText parts).toList (namesOf (parts.flatMap Expression.slots)) := by
  have each : ∀ part ∈ parts, Refers part.text.toList (namesOf part.slots) :=
    fun part member => refers_text part (formed part member)
  -- A part that is left out of the clause has no placeholder, for its text refers to none.
  have same : namesOf (parts.flatMap Expression.slots) =
      (parts.filter fun part => part.text != Expression.alwaysText).flatMap
        fun part => namesOf part.slots := by
    clear formed
    rw [namesOf_flatMap]
    induction parts with
    | nil => rfl
    | cons part rest ih =>
      obtain ⟨here, later⟩ := List.forall_mem_cons.mp each
      rw [List.flatMap_cons, ih later, List.filter_cons]
      split
      · rw [List.flatMap_cons]
      · rename_i constant
        -- What is always true is left out, and its text refers to nothing.
        have always : part.text = Expression.alwaysText := by simpa using constant
        rw [always] at here
        have silent : Silent Expression.alwaysText.toList := silent_words (by decide)
        rw [here.unique silent.refers, List.nil_append]
  unfold Expression.clauseText
  rw [same, Expression.texts_eq_map, List.filter_map]
  exact refers_joined (silent_words (by decide)) (by decide) fun part member =>
    each part (List.mem_filter.mp member).1

/-- A key is silent, whether or not it can be written. -/
theorem silent_keyText (key : Value) : Silent (Attribute.keyText key).toList := by
  -- A key that has no text is written as none.
  unfold Attribute.keyText
  cases written : key.jsonText? with
  | none => exact silent_words (by decide)
  | some text => exact silent_jsonText key written

mutual

/-- The text of a well-formed attribute refers to its placeholders. -/
theorem refers_attribute : (head : Attribute) → head.WellFormed →
    Refers head.text.toList (namesOf head.slots)
  -- By induction on the attribute: the names around its slots refer to nothing.
  | .plain name, valid => (silent_name valid).refers
  | .path key target, valid => by
    unfold Attribute.text
    simp only [String.toList_append]
    exact (((silent_keyText key).append (silent_words (by decide))).append
      (silent_path valid)).refers
  | .call key function slots, valid => by
    -- The references of a call are its arguments, behind a key and a name that refer to nothing.
    have arguments : Refers (", ".intercalate (slots.map Context.slotReference)).toList
        (slots.flatMap fun slot => [Context.slotName slot]) :=
      refers_joined (silent_words (by decide)) (by decide) fun slot _ => refers_slotReference slot
    rw [← List.map_eq_flatMap] at arguments
    have opens : Silent (Attribute.keyText key ++ ": " ++ function ++ "(").toList := by
      simp only [String.toList_append]
      exact (((silent_keyText key).append (silent_words (by decide))).append
        (silent_functionName valid)).append (silent_words (by decide))
    exact refers_between opens (silent_words (by decide)) (by decide) arguments
  | .nested name attributes, ⟨valid, formed⟩ => by
    have each := refers_attributes attributes formed
    have opens : Silent (name ++ "\x7b").toList := by
      rw [String.toList_append]
      exact (silent_name valid).append (silent_words (by decide))
    unfold Attribute.text Attribute.slots
    rw [Attribute.texts_eq_map, Attribute.allSlots_eq_flatMap, namesOf_flatMap]
    exact refers_between opens (silent_words (by decide)) (by decide)
      (refers_joined (silent_words (by decide)) (by decide) each)
  | .resolved name, valid => by
    unfold Attribute.text
    simp only [String.toList_append]
    exact ((((silent_jsonString name).append (silent_words (by decide))).append
      (silent_name valid)).append (silent_words (by decide))).refers
  | .expanded name attributes, ⟨valid, formed⟩ => by
    have each := refers_attributes attributes formed
    have opens : Silent (Text.jsonString name ++ ": " ++ name ++ "->\x7b").toList := by
      simp only [String.toList_append]
      exact (((silent_jsonString name).append (silent_words (by decide))).append
        (silent_name valid)).append (silent_words (by decide))
    unfold Attribute.text Attribute.slots
    rw [Attribute.texts_eq_map, Attribute.allSlots_eq_flatMap, namesOf_flatMap]
    exact refers_between opens (silent_words (by decide)) (by decide)
      (refers_joined (silent_words (by decide)) (by decide) each)
termination_by structural head => head

/-- The texts of well-formed attributes refer to their placeholders. -/
theorem refers_attributes : (attributes : List Attribute) → Attribute.AllWellFormed attributes →
    ∀ head ∈ attributes, Refers head.text.toList (namesOf head.slots)
  | [], _ => nofun
  | head :: rest, ⟨formed, others⟩ =>
    List.forall_mem_cons.mpr ⟨refers_attribute head formed, refers_attributes rest others⟩
termination_by structural attributes => attributes

end

/-- The attributes of a projection behind those of the system fields that it does not name. -/
def delivered (attributes : List Attribute) : List Attribute :=
  (systemFields.filter fun field =>
    !(attributes.map Attribute.key).contains (.text field)).map Attribute.plain ++ attributes

/-- The system fields are written like attributes that are delivered as a whole. -/
theorem projectionText_eq (attributes : List Attribute) : projectionText attributes =
    "\x7b" ++ ", ".intercalate ((delivered attributes).map Attribute.text) ++ "\x7d" := by
  -- The text of a system field is its name.
  have written (system : List String) : (system.map Attribute.plain ++ attributes).map
      Attribute.text = system ++ Attribute.texts attributes := by
    rw [List.map_append, List.map_map, Attribute.texts_eq_map]
    congr 1
    exact List.map_id _
  rw [delivered, written]
  rfl

/-- An attribute that is delivered is one of the projection or a system field. -/
theorem mem_delivered {attributes : List Attribute} {head : Attribute}
    (member : head ∈ delivered attributes) :
    head ∈ attributes ∨ ∃ field ∈ systemFields, head = .plain field := by
  -- The system fields stand in front.
  rcases List.mem_append.mp member with system | own
  · obtain ⟨field, among, rfl⟩ := List.mem_map.mp system
    exact Or.inr ⟨field, (List.mem_filter.mp among).1, rfl⟩
  · exact Or.inl own

/-- System fields are names, so that what is delivered is well-formed with the projection. -/
theorem wellFormed_delivered {attributes : List Attribute}
    (formed : ∀ head ∈ attributes, head.WellFormed) :
    ∀ head ∈ delivered attributes, head.WellFormed := by
  -- The system fields put in front are names.
  intro head member
  rcases mem_delivered member with own | ⟨field, among, rfl⟩
  · exact formed head own
  · have named : ∀ field ∈ systemFields, isName field = true := by decide
    exact named field among

/-- The text of a projection refers to the placeholders of its attributes. -/
theorem refers_projectionText {attributes : List Attribute}
    (formed : ∀ head ∈ attributes, head.WellFormed) :
    Refers (projectionText attributes).toList (namesOf (attributes.flatMap Attribute.slots)) := by
  have each := refers_attributes (delivered attributes)
    ((Attribute.allWellFormed_iff _).mpr (wellFormed_delivered formed))
  -- No system field names a placeholder.
  have slots : namesOf (attributes.flatMap Attribute.slots) =
      (delivered attributes).flatMap fun head => namesOf head.slots := by
    have none_ (system : List String) : (system.map Attribute.plain).flatMap
        (fun head => namesOf head.slots) = [] := by
      refine List.flatMap_eq_nil_iff.mpr fun head member => ?_
      obtain ⟨field, -, rfl⟩ := List.mem_map.mp member
      rfl
    rw [delivered, List.flatMap_append, none_, List.nil_append, namesOf_flatMap]
  have joined : Refers (", ".intercalate ((delivered attributes).map Attribute.text)).toList _ :=
    refers_joined (silent_words (by decide)) (by decide) each
  rw [← slots] at joined
  rw [projectionText_eq]
  exact refers_between (silent_words (by decide)) (silent_words (by decide)) (by decide) joined

/-- The slots of the placeholders in a statement, in the order of its text. -/
def Statement.slots (statement : Statement) : List Nat :=
  statement.filter.flatMap Expression.slots ++
    (statement.projection.getD []).flatMap Attribute.slots

/-- Whether the parts of a statement are well-formed and it is sorted by paths. -/
structure Statement.WellFormed (statement : Statement) : Prop where
  filter : ∀ part ∈ statement.filter, part.WellFormed
  order : ∀ clause ∈ statement.order, pathGrammar.isPath clause.1 = true
  projection : ∀ head ∈ statement.projection.getD [], head.WellFormed

/-- The text of a slice is silent. -/
theorem silent_slice (slice : Slice) : Silent slice.text.toList := by
  -- Numbers and dots.
  unfold Slice.text
  split
  · exact silent_words (by decide)
  · rw [String.toList_append]
    exact (silent_natural _).append (silent_words (by decide))
  · simp only [String.toList_append]
    exact ((silent_natural _).append (silent_words (by decide))).append (silent_natural _)

/-- A clause that sorts by paths is silent. -/
theorem silent_order {order : List (String × Direction)}
    (paths : ∀ clause ∈ order, pathGrammar.isPath clause.1 = true) :
    Silent (", ".intercalate
      (order.map fun (field, direction) => field ++ " " ++ direction.keyword)).toList := by
  -- A clause is a path and a keyword, and neither holds a mark that opens a reference.
  rw [String.toList_intercalate]
  refine silent_intercalate (silent_words (by decide)) fun chars member => ?_
  obtain ⟨text, among, rfl⟩ := List.mem_map.mp member
  obtain ⟨⟨field, direction⟩, inside, rfl⟩ := List.mem_map.mp among
  have keyword : Silent direction.keyword.toList := by
    cases direction <;> exact silent_words (by decide)
  simp only [String.toList_append]
  exact ((silent_path (paths _ inside)).append (silent_words (by decide))).append keyword

/-- A text between two others ends a name in front of it, as nothing does in its place. -/
theorem ends_enclosed {opening : String} (opens : opening.toList.head?.any (!isNameTail ·) = true)
    (text closing : String) (rest : List Char) (ends : Ends rest) :
    Ends ((enclosed opening text closing).toList ++ rest) := by
  -- Either the text begins with the opening or what follows it is next.
  unfold enclosed
  split
  · exact ends
  · rw [String.toList_append, String.toList_append, List.append_assoc, List.append_assoc]
    exact ends_words opens _

/-- The text of a well-formed statement refers to the placeholders of the statement. -/
theorem references_text {statement : Statement} (formed : statement.WellFormed) :
    references statement.text = namesOf statement.slots := by
  -- The text is cut into its parts, and each part is read by itself.
  let clause := enclosed "[" (Expression.clauseText statement.filter) "]"
  let order := enclosed " | order(" (", ".intercalate
    (statement.order.map fun (field, direction) => field ++ " " ++ direction.keyword)) ")"
  let slice := enclosed "[" statement.slice.text "]"
  let projection :=
    (statement.projection.map fun attributes => " " ++ projectionText attributes).getD ""
  have filtered : Refers clause.toList (namesOf (statement.filter.flatMap Expression.slots)) :=
    refers_enclosed (silent_words (by decide)) (silent_words (by decide)) (by decide)
      (refers_clauseText formed.filter)
  have sorted : Silent order.toList :=
    silent_enclosed (silent_words (by decide)) (silent_order formed.order)
      (silent_words (by decide))
  have cut : Silent slice.toList :=
    silent_enclosed (silent_words (by decide)) (silent_slice _) (silent_words (by decide))
  obtain ⟨projected, ends⟩ : Refers projection.toList
      (namesOf ((statement.projection.getD []).flatMap Attribute.slots)) ∧
        Ends projection.toList := by
    have attributes := formed.projection
    cases given : statement.projection with
    | none =>
      simp only [projection, given]
      exact ⟨(silent_words (by decide)).refers, by decide⟩
    | some heads =>
      rw [given] at attributes
      simp only [projection, given, Option.map_some, Option.getD_some, String.toList_append]
      exact ⟨(silent_words (by decide)).before (refers_projectionText attributes),
        ends_words (by decide) _⟩
  have written : statement.text.toList = "*".toList ++
      (clause.toList ++ (order.toList ++ (slice.toList ++ projection.toList))) := by
    simp [Statement.text, clause, order, slice, projection]
  -- Each part is empty or opens with a mark that ends a name in front of it.
  have whole := (silent_words (by decide) : Silent "*".toList).before <|
    filtered.append
      (ends_enclosed (by decide) _ _ _ (ends_enclosed (by decide) _ _ _ ends))
      (sorted.before (cut.before projected))
  rw [← written] at whole
  rw [whole.references_eq, Statement.slots, namesOf, namesOf, namesOf, List.map_append]

end ContentQuery.Groq
