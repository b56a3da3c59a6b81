import ContentQuery.Proofs.Contentful.Entries
import ContentQuery.Proofs.Groq.Bindings
import ContentQuery.Proofs.Groq.Leaf
import ContentQuery.Qdrant.Filter

/-! References to one of several documents: what the compiled leaf finds on each target. -/

namespace ContentQuery

/-- What a field of a document links: one document, or several of them in an array. -/
inductive Links where
  | one (id : String)
  | several (ids : List String)
  deriving Repr, DecidableEq

namespace Links

/-- The documents that are linked. -/
def ids : Links → List String
  | .one id => [id]
  | .several ids => ids

/-- What `._ref` reads behind the field, which is nothing behind an array. -/
def reference : Links → Value
  | .one id => .text id
  | .several _ => .null

/-- What `[]._ref` reads behind the field, which is nothing behind a single reference. -/
def references : Links → Value
  | .one _ => .null
  | .several ids => .list (ids.map .text)

end Links

namespace Groq

/-- An equality of values in the language, as far as it compares texts, arrays and nothing. -/
structure Equality where
  Equal : Value → Value → Prop
  text_text : ∀ left right, Equal (.text left) (.text right) ↔ left = right
  text_array : ∀ text items, ¬ Equal (.text text) (.list items)
  null_text : ∀ text, ¬ Equal .null (.text text)
  null_array : ∀ items, ¬ Equal .null (.list items)

namespace Equality

variable (equality : Equality)

/-- Whether a value is in an array: one of the elements equals it. -/
def Within (value : Value) : Value → Prop
  | .list items => ∃ item ∈ items, equality.Equal item value
  | _ => False

/-- What a reference through a field comes to, once the field and the placeholder are read. -/
def Refers (links : Links) (literal : Value) : Prop :=
  equality.Equal links.reference literal ∨ equality.Within literal links.references

/-- An array is referred to by no document, whatever it holds. -/
theorem not_refers_array (links : Links) (items : List Value) :
    ¬ equality.Refers links (.list items) := by
  -- An array is compared with an identifier, and is equal to none.
  cases links with
  | one own => simp [Refers, Within, Links.reference, Links.references, equality.text_array]
  | several ids =>
    simp [Refers, Within, Links.reference, Links.references, equality.null_array,
      equality.text_array]

/-- The truth of the atoms about a field is that of a document, with placeholders that are bound. -/
structure Tells (bindings : List Value) (field : String) (links : Links)
    (truth : String → Prop) : Prop where
  single : ∀ slot literal, bindings[slot]? = some literal →
    (Says truth (pathReferenceAtom field slot) ↔ equality.Equal links.reference literal)
  several : ∀ slot literal, bindings[slot]? = some literal →
    (Says truth (listReferenceAtom field slot) ↔ equality.Within literal links.references)

/-- A text whose last character is no blank is trimmed already. -/
theorem trimmed_of_last {text : String} {last : Char} (ends : text.toList.getLast? = some last)
    (unblank : isBlank last = false) : trimmed text = text := by
  -- Only blanks at the end are trimmed.
  obtain ⟨before, same⟩ := List.getLast?_eq_some_iff.mp ends
  rw [trimmed, same, List.reverse_append, List.reverse_singleton, List.singleton_append,
    List.dropWhile_cons_of_neg (by rw [unblank]; decide), List.reverse_cons, List.reverse_reverse,
    ← same, String.ofList_toList]

/-- The atom of a single reference ends in a digit, so that it stays as it is. -/
theorem last_pathReferenceAtom (field : String) (slot : Nat) :
    ∃ digit, (pathReferenceAtom field slot).toList.getLast? = some digit ∧
      digit.isDigit = true := by
  -- The text ends in the number of the slot.
  have filled : (toString slot).toList ≠ [] := by
    simp
  refine ⟨(toString slot).toList.getLast filled, ?_,
    isDigit_of_mem_toString (List.getLast_mem filled)⟩
  have written : (pathReferenceAtom field slot).toList =
      (field ++ "._ref == $p").toList ++ (toString slot).toList := by
    simp [pathReferenceAtom, Context.slotReference, Context.slotName]
  rw [written, List.getLast?_append_of_ne_nil _ filled, List.getLast?_eq_some_getLast]

/-- The atom of a list of references ends in a letter. -/
theorem last_listReferenceAtom (field : String) (slot : Nat) :
    (listReferenceAtom field slot).toList.getLast? = some 'f' := by
  have written : (listReferenceAtom field slot).toList =
      (Context.slotReference slot ++ " in " ++ field ++ "[]._re").toList ++ ['f'] := by
    simp [listReferenceAtom]
  rw [written, List.getLast?_concat]

/-- Atoms of references through one field are told apart by their placeholders and by their ends. -/
theorem referenceAtoms_apart (field : String) (slot slot' : Nat) :
    (pathReferenceAtom field slot = pathReferenceAtom field slot' → slot = slot') ∧
      (listReferenceAtom field slot = listReferenceAtom field slot' → slot = slot') ∧
        pathReferenceAtom field slot ≠ listReferenceAtom field slot' := by
  -- The number of the slot can be read off either text; one ends in a digit and the other in a
  -- bracket.
  refine ⟨fun same => ?_, fun same => ?_, fun same => ?_⟩
  · simp only [pathReferenceAtom, Context.slotReference, String.append_right_inj] at same
    exact slotName_injective same
  · simp only [listReferenceAtom, Context.slotReference, String.append_left_inj,
      String.append_right_inj] at same
    exact slotName_injective same
  · obtain ⟨digit, ends, among⟩ := last_pathReferenceAtom field slot
    rw [same, last_listReferenceAtom] at ends
    obtain rfl := Option.some.inj ends
    exact absurd among (by decide)

/-- Whatever a document links and whatever is bound, there is a truth that tells it. -/
theorem exists_tells (bindings : List Value) (field : String) (links : Links) :
    ∃ truth, equality.Tells bindings field links truth := by
  -- No blank stands at the end of an atom, so that it is looked up as it is written.
  have path (slot : Nat) :
      trimmed (pathReferenceAtom field slot) = pathReferenceAtom field slot := by
    obtain ⟨digit, ends, among⟩ := last_pathReferenceAtom field slot
    refine trimmed_of_last ends (Bool.eq_false_iff.mpr fun blank => ?_)
    have which : ((digit = ' ' ∨ digit = '\t') ∨ digit = '\r') ∨ digit = '\n' := by
      simpa only [isBlank, Char.isWhitespace, Bool.or_eq_true, decide_eq_true_eq] using blank
    rcases which with ((rfl | rfl) | rfl) | rfl <;> exact absurd among (by decide)
  have array (slot : Nat) : trimmed (listReferenceAtom field slot) = listReferenceAtom field slot :=
    trimmed_of_last (last_listReferenceAtom field slot) (by decide)
  refine ⟨fun atom =>
    (∃ slot literal, bindings[slot]? = some literal ∧ atom = pathReferenceAtom field slot ∧
      equality.Equal links.reference literal) ∨
    ∃ slot literal, bindings[slot]? = some literal ∧ atom = listReferenceAtom field slot ∧
      equality.Within literal links.references, ?_, ?_⟩
  · intro slot literal bound
    rw [Says, path]
    refine ⟨fun said => ?_, fun equal => Or.inl ⟨slot, literal, bound, rfl, equal⟩⟩
    rcases said with ⟨slot', literal', bound', same, equal⟩ | ⟨slot', _, -, same, -⟩
    · obtain rfl := (referenceAtoms_apart field slot slot').1 same
      rwa [Option.some.inj (bound.symm.trans bound')]
    · exact absurd same (referenceAtoms_apart field slot slot').2.2
  · intro slot literal bound
    rw [Says, array]
    refine ⟨fun said => ?_, fun within => Or.inr ⟨slot, literal, bound, rfl, within⟩⟩
    rcases said with ⟨slot', _, -, same, -⟩ | ⟨slot', literal', bound', same, within⟩
    · exact absurd same.symm (referenceAtoms_apart field slot' slot).2.2
    · obtain rfl := (referenceAtoms_apart field slot slot').2.1 same
      rwa [Option.some.inj (bound.symm.trans bound')]

end Equality

/-- A filter of one expression is read, and finds the documents that meet a condition. -/
def Finds (bindings : List Value) (field : String) (links : Links) (expression : Expression)
    (condition : Prop) : Prop :=
  ∃ disjuncts, readClause (Expression.clauseText [expression]) = some disjuncts ∧
    ∀ (equality : Equality) (truth : String → Prop),
      equality.Tells bindings field links truth → (SomeHolds truth disjuncts ↔ condition)

/-- A reference that is converted has a path, and its placeholder is bound to the literal's form. -/
theorem reference_of_convert {field : String} {value : Value} {context after : Context}
    {expression : Expression}
    (ran : convert (.leaf (.text field) (.known .references) value) context =
      (some expression, after)) :
    pathGrammar.isPath field = true ∧
      expression = .refersThrough field context.bindings.length ∧
        ∃ json, value.toJson = .ok json ∧ after = context.extend [json] [] := by
  have outcome := convertsLeaf (.text field) (.known .references) value
  -- A leaf that is dropped is converted to nothing.
  have dropped (drops : IsDropped (.text field) (.known .references)
      (convertLeaf (.text field) (.known .references) value)) : False := by
    obtain ⟨_, -, gives⟩ := drops
    exact nomatch (gives _ context rfl).symm.trans ran
  unfold boundOf? at outcome
  dsimp only at outcome
  by_cases valid : pathGrammar.isPath field = true
  · rw [if_pos valid] at outcome
    cases formed : value.toJson with
    | error fault =>
      simp only [boundByLeaf, formed] at outcome
      exact (dropped outcome).elim
    | ok json =>
      simp only [boundByLeaf, formed] at outcome
      have gives := outcome context.bindings.length context rfl
      obtain ⟨same, rfl⟩ := Prod.mk.inj (gives.symm.trans ran)
      exact ⟨valid, (Option.some.inj same).symm, json, rfl, rfl⟩
  · rw [if_neg valid] at outcome
    exact (dropped outcome).elim

/-- A reference through a field finds what the literal's form refers to, bound as it is. -/
theorem finds_reference {field : String} (valid : pathGrammar.isPath field = true) {slot : Nat}
    {bindings : List Value} {json : Value} (bound : bindings[slot]? = some json) (links : Links)
    {condition : Prop}
    (refers : ∀ equality : Equality, equality.Refers links json ↔ condition) :
    Finds bindings field links (.refersThrough field slot) condition := by
  -- The clause read back is one disjunction of two comparisons, whose truth is told by what is
  -- bound.
  obtain ⟨formed, said⟩ := expresses_refersThrough valid slot
  obtain ⟨disjuncts, read, meaning⟩ :=
    Expression.read_clauseText (List.forall_mem_singleton.mpr formed)
  refine ⟨disjuncts, read, fun equality truth tells => ?_⟩
  rw [meaning truth, List.forall_mem_singleton]
  refine (said truth).trans ?_
  show _ ∨ _ ↔ _
  rw [tells.single slot json bound, tells.several slot json bound]
  exact refers equality

/-- The form of a container is an array. -/
theorem array_of_toJson {value json : Value} {items : List Value}
    (listed : value.items? = some items) (formed : value.toJson = .ok json) : ∃ forms, json = .list forms := by
  -- Lists, tuples and sets are all taken apart first, and put together as arrays.
  cases value with
  | list own | tuple own =>
    cases listed
    obtain ⟨forms, -, same⟩ := ok_of_bind formed
    exact ⟨forms, (Except.ok.inj same).symm⟩
  | set _ own =>
    cases listed
    obtain ⟨forms, -, formed⟩ := ok_of_bind formed
    obtain ⟨-, -, same⟩ := ok_of_bind formed
    exact ⟨Value.sorted forms, (Except.ok.inj same).symm⟩
  | _ => exact nomatch listed

section Bound

variable {field : String} {value : Value} {context after : Context} {expression : Expression}
  {bindings : List Value}
  (ran : convert (.leaf (.text field) (.known .references) value) context =
    (some expression, after))
  (behind : after.bindings <+: bindings)
include ran behind

/-- What is bound last stays where it is, whatever is bound behind it. -/
theorem finds_of_convert (links : Links) {condition : Prop}
    (refers : ∀ json, value.toJson = .ok json →
      ∀ equality : Equality, equality.Refers links json ↔ condition) :
    Finds bindings field links expression condition := by
  -- The reference was bound to the next slot, and is found there from then on.
  obtain ⟨valid, rfl, json, formed, rfl⟩ := reference_of_convert ran
  refine finds_reference valid ?_ links (refers json formed)
  obtain ⟨others, rfl⟩ := behind
  simp [Context.extend]

/-- A reference to several documents finds nothing. -/
theorem finds_none (links : Links) {items : List Value} (listed : value.items? = some items) :
    Finds bindings field links expression False := by
  refine finds_of_convert ran behind links fun json formed equality => ?_
  obtain ⟨forms, rfl⟩ := array_of_toJson listed formed
  exact iff_of_false (equality.not_refers_array links forms) id

end Bound

end Groq

namespace Contentful

open Compile (Ensures)

/-- Whether an entry holds for a document with a field that links others: one is asked for, or one
of several. An entry about anything else does not hold. -/
def LinkHolds (field : String) (links : Links) (entry : String × Parameter) : Prop :=
  (entry.1 = fieldKey field ++ ".sys.id" ∧ entry.2.sent ∈ links.ids) ∨
    (entry.1 = fieldKey field ++ ".sys.id[in]" ∧ ∃ id ∈ itemsOf entry.2.sent, id ∈ links.ids)

/-- Whether a filter map finds a document with a field that links others. -/
def Finds (field : String) (links : Links) (map : FilterMap) : Prop :=
  ∀ entry ∈ map.entries, LinkHolds field links entry

/-- The texts of identifiers are sent, in some order, as items of a list parameter. -/
theorem items_of_ofValue {value : Value} {ids : List String} {parameter : Parameter}
    (listed : value.items? = some (ids.map .text))
    (made : Parameter.ofValue value = .ok parameter) (id : String) :
    id ∈ itemsOf parameter.sent ↔ id ∈ ids := by
  -- The items of a set are sorted first, which changes no membership.
  obtain ⟨items, ordered, same⟩ : ∃ items, value.orderedItems? = some items ∧
      ∀ item, item ∈ items ↔ item ∈ ids.map Value.text := by
    cases value with
    | list own | tuple own =>
      cases listed
      exact ⟨_, rfl, fun _ => Iff.rfl⟩
    | set _ own =>
      cases listed
      exact ⟨_, rfl, fun _ => List.mem_mergeSort⟩
    | _ => exact nomatch listed
  obtain ⟨-, -, made⟩ := ok_of_bind made
  rw [ordered] at made
  obtain ⟨parts, given, rfl, some_, whole⟩ := Parameter.parts_of_ofItems made
  obtain ⟨each, back⟩ := mem_of_mapM given
  -- An identifier is sent as it is.
  have sent {name part : String} (ran : Parameter.item (.text name) = .ok part) : part = name := by
    obtain ⟨-, -, parameter, there, rfl⟩ := Parameter.ofValue_of_item ran
    cases there
    rfl
  show id ∈ itemsOf (",".intercalate parts) ↔ _
  rw [itemsOf_intercalate some_ whole]
  constructor
  · intro member
    obtain ⟨item, inside, ran⟩ := back id member
    obtain ⟨name, among, rfl⟩ := List.mem_map.mp ((same item).mp inside)
    rwa [sent ran]
  · intro among
    obtain ⟨part, member, ran⟩ := each _ ((same _).mpr (List.mem_map_of_mem among))
    rwa [sent ran] at member

/-- Keys of one field are the same where the field has the key that a reference is sent under. -/
theorem key_eq_iff (field : String) :
    "fields." ++ field ++ ".sys.id" ++ "[in]" = fieldKey field ++ ".sys.id[in]" ↔
      fieldKey field = "fields." ++ field := by
  have joined : "fields." ++ field ++ ".sys.id" ++ "[in]" = "fields." ++ field ++ ".sys.id[in]" :=
    String.append_assoc
  rw [joined, String.append_left_inj, eq_comm]

/-- A reference to several documents finds what links one of them, where the field names no
section. -/
theorem finds_iff {field : String} {value : Value} {ids : List String} {map : FilterMap}
    {context after : Context} (listed : value.items? = some (ids.map .text))
    (ran : convert (.leaf (.text field) (.known .references) value) context = .ok (map, after))
    (silent : after.notices = context.notices) (links : Links) :
    Finds field links map ↔
      fieldKey field = "fields." ++ field ∧ ∃ id ∈ ids, id ∈ links.ids := by
  obtain ⟨notices, rfl, -, outcome⟩ := (ensures_fieldReference field value).of_run ran
  have none_ : notices = [] := by simpa [Context.extend] using silent
  subst none_
  rcases outcome with lost | ⟨parameter, made, rfl⟩
  · exact absurd rfl lost.ne_nil
  · rw [listed]
    have whole : Finds field links (single ("fields." ++ field ++ ".sys.id" ++ "[in]") parameter) ↔
        LinkHolds field links ("fields." ++ field ++ ".sys.id" ++ "[in]", parameter) := by
      simp [Finds, single]
    refine whole.trans ?_
    unfold LinkHolds
    -- The key ends in a bracket, so that one document is not what is asked for.
    have plural : "fields." ++ field ++ ".sys.id" ++ "[in]" ≠ fieldKey field ++ ".sys.id" := by
      intro same
      have ends := congrArg (fun key : String => key.toList.getLast?) same
      simp [List.getLast?_cons, List.getLast?_append] at ends
    simp only [plural, false_and, false_or, key_eq_iff, items_of_ofValue listed made]

end Contentful

namespace Qdrant

/-- A reference is dropped with a notice. -/
theorem noted_of_convert {payloadPrefix field value : Value} {context after : Context}
    {converted : Converted}
    (ran : convert payloadPrefix (.leaf field (.known .references) value) context =
      .ok (converted, after)) : after.notices ≠ context.notices := by
  -- A reference is always told of, and a notice makes the list longer.
  cases ran
  intro same
  have longer := congrArg List.length same
  simp [Context.note] at longer

end Qdrant

/--
A leaf that asks for references to several documents, compiled without a notice. In a request it
finds the documents that link one of them, unless the field names a section or is a system field,
which are looked for under another key. In a statement it finds no document at all, and no clause of
a scroll stands for it.
-/
theorem reference_lists_found {value : Value} {ids : List String}
    (listed : value.items? = some (ids.map .text)) (links : Links) (field : String) :
    (∀ context after expression,
      Groq.convert (.leaf (.text field) (.known .references) value) context =
          (some expression, after) →
        ∀ bindings, after.bindings <+: bindings →
          Groq.Finds bindings field links expression False) ∧
    (∀ context after map,
      Contentful.convert (.leaf (.text field) (.known .references) value) context =
          .ok (map, after) → after.notices = context.notices →
        (Contentful.Finds field links map ↔
          Contentful.fieldKey field = "fields." ++ field ∧ ∃ id ∈ ids, id ∈ links.ids)) ∧
    ∀ payloadPrefix context after converted,
      Qdrant.convert payloadPrefix (.leaf (.text field) (.known .references) value) context =
          .ok (converted, after) → after.notices ≠ context.notices :=
  ⟨fun _ _ _ ran _ behind => Groq.finds_none ran behind links listed,
    fun _ _ _ ran silent => Contentful.finds_iff listed ran silent links,
    fun _ _ _ _ ran => Qdrant.noted_of_convert ran⟩

/-- A leaf that asks for references to one of two authors. -/
def authorsLeaf : Condition :=
  .leaf (.text "author") (.known .references) (.list [.text "a", .text "b"])

/-- A post by one of the two authors is found by a request, and not by a statement. -/
theorem reference_lists_found_authors :
    (∃ expression after, Groq.convert authorsLeaf .empty = (some expression, after) ∧
      after.notices = [] ∧ Groq.Finds after.bindings "author" (.one "b") expression False) ∧
    ∃ map after, Contentful.convert authorsLeaf .empty = .ok (map, after) ∧
      after.notices = [] ∧ Contentful.Finds "author" (.one "b") map := by
  -- A list of two authors misses on the one target what it finds on the other.
  have listed : Value.items? (.list [.text "a", .text "b"]) =
      some (["a", "b"].map Value.text) := rfl
  obtain ⟨expression, after, ran, silent⟩ : ∃ expression after,
      Groq.convert authorsLeaf .empty = (some expression, after) ∧ after.notices = [] :=
    ⟨_, _, rfl, rfl⟩
  obtain ⟨map, after', ran', silent'⟩ : ∃ map after,
      Contentful.convert authorsLeaf .empty = .ok (map, after) ∧ after.notices = [] :=
    ⟨_, _, rfl, rfl⟩
  have found := reference_lists_found listed (.one "b")
  refine ⟨⟨expression, after, ran, silent, ?_⟩, map, after', ran', silent', ?_⟩
  · exact (found _).1 .empty after expression ran _ (List.prefix_refl _)
  refine ((found _).2.1 .empty after' map ran' silent').mpr ⟨by decide, "b", ?_, ?_⟩
  · simp
  · simp [Links.ids]

namespace Groq

/-- The equality that holds between texts that are the same, and nowhere else. -/
def textEquality : Equality where
  Equal left right := ∃ text, left = .text text ∧ right = .text text
  text_text left right := by simp [eq_comm]
  text_array text items := by simp
  null_text text := by simp
  null_array items := by simp

/-- A post by one of the two authors is not found by the statement that is compiled for it. -/
theorem author_of_list_missed :
    ∃ expression after disjuncts truth, convert authorsLeaf .empty = (some expression, after) ∧
      after.notices = [] ∧
        readClause (Expression.clauseText [expression]) = some disjuncts ∧
          textEquality.Tells after.bindings "author" (.one "b") truth ∧
            ¬ SomeHolds truth disjuncts := by
  -- The whole list is bound to one slot, and is compared with a single identifier.
  obtain ⟨expression, after, ran, silent⟩ : ∃ expression after,
      convert authorsLeaf .empty = (some expression, after) ∧ after.notices = [] := ⟨_, _, rfl, rfl⟩
  have listed : Value.items? (.list [.text "a", .text "b"]) = some [.text "a", .text "b"] := rfl
  obtain ⟨disjuncts, read, meaning⟩ :=
    finds_none ran (List.prefix_refl _) (.one "b") listed
  obtain ⟨truth, tells⟩ := textEquality.exists_tells after.bindings "author" (.one "b")
  exact ⟨expression, after, disjuncts, truth, ran, silent, read, tells,
    (meaning textEquality truth tells).mp⟩

end Groq

end ContentQuery
