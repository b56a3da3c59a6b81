import ContentQuery.Proofs.Groq.Bindings
import ContentQuery.Proofs.JsonString
import ContentQuery.Proofs.ProjectionNames
import ContentQuery.Proofs.Reasons

/-! Names that are written into a statement: each is read back from where it stands in the text. -/

namespace ContentQuery

/-- Texts in a row open with the first one. -/
theorem exists_intercalate_cons (separator first : String) (others : List String) :
    ∃ behind, separator.intercalate (first :: others) = first ++ behind := by
  -- A separator only stands behind the first text, if at all.
  cases others with
  | nil => exact ⟨"", by simp⟩
  | cons second others =>
    exact ⟨separator ++ separator.intercalate (second :: others),
      by rw [String.intercalate_cons_cons, String.append_assoc]⟩

/-- Whether what is written between a front and a rest of a text is read as a result, to its end. -/
def ReadsAt {α : Type} (read : List Char → Option (α × List Char))
    (text front written rest : String) (result : α) : Prop :=
  text = front ++ written ++ rest ∧
    read (text.toList.drop front.length) = some (result, rest.toList)

/-- What is read in front of anything is read wherever it stands. -/
theorem readsAt_of_append {α : Type} {read : List Char → Option (α × List Char)}
    {text front written rest : String} {result : α}
    (reads : ∀ rest, read (written.toList ++ rest) = some (result, rest))
    (stands : text = front ++ written ++ rest) : ReadsAt read text front written rest result := by
  -- What stands in front is dropped by its length.
  refine ⟨stands, ?_⟩
  have behind : text.toList.drop front.length = written.toList ++ rest.toList := by
    rw [stands, String.toList_append, String.toList_append, List.append_assoc,
      ← String.length_toList, List.drop_left]
  rw [behind, reads]

namespace Groq

section Places

/-- Keys behind a text are also behind whatever stands in front of it. -/
def shift (front : String) (places : List (String × Value)) : List (String × Value) :=
  places.map fun (before, key) => (front ++ before, key)

mutual

/-- The keys of the aliases and calls in an attribute, each with the text in front of it. -/
def Attribute.keyPlaces : Attribute → List (String × Value)
  | .path key _ | .call key _ _ => [("", key)]
  | .nested name attributes => shift (name ++ "\x7b") (allKeyPlaces attributes)
  | .expanded name attributes =>
    shift (Text.jsonString name ++ ": " ++ name ++ "->\x7b") (allKeyPlaces attributes)
  | .plain _ | .resolved _ => []
termination_by structural input => input

/-- The keys of the aliases and calls in attributes that stand in a row. -/
def Attribute.allKeyPlaces : List Attribute → List (String × Value)
  | [] => []
  | head :: rest => head.keyPlaces ++ shift (head.text ++ ", ") (allKeyPlaces rest)
termination_by structural input => input

end

/-- The text of a statement in front of its projection. -/
def Statement.front (statement : Statement) : String :=
  let order := statement.order.map fun (field, direction) => field ++ " " ++ direction.keyword
  "*" ++ enclosed "[" (Expression.clauseText statement.filter) "]"
    ++ enclosed " | order(" (", ".intercalate order) ")"
    ++ enclosed "[" statement.slice.text "]"

/-- The keys of the aliases and calls in a statement, each with the text in front of it. -/
def Statement.keyPlaces (statement : Statement) : List (String × Value) :=
  match statement.projection with
  | none => []
  | some attributes =>
    shift (statement.front ++ " " ++ "\x7b") (Attribute.allKeyPlaces (delivered attributes))

/-- Whether a text has a key, a colon and a blank behind a front. -/
def HasKey (text front : String) (key : Value) : Prop :=
  ∃ rest, text = front ++ Attribute.keyText key ++ (": " ++ rest)

/-- A text that is continued has its keys where it had them. -/
theorem HasKey.append {text front : String} {key : Value} (has : HasKey text front key)
    (behind : String) : HasKey (text ++ behind) front key := by
  obtain ⟨rest, written⟩ := has
  exact ⟨rest ++ behind, by simp only [written, String.append_assoc]⟩

/-- A text between two others has its keys behind what is in front of it. -/
theorem hasKey_shift {text : String} {places : List (String × Value)}
    (placed : ∀ place ∈ places, HasKey text place.1 place.2) (front behind : String) :
    ∀ place ∈ shift front places, HasKey (front ++ text ++ behind) place.1 place.2 := by
  -- Text in front of a key moves its place, and text behind does not touch it.
  intro place member
  obtain ⟨⟨before, key⟩, inside, rfl⟩ := List.mem_map.mp member
  obtain ⟨rest, written⟩ := placed _ inside
  refine HasKey.append ⟨rest, ?_⟩ behind
  simp only [written, String.append_assoc]

mutual

/-- An attribute has its keys where they are placed. -/
theorem hasKey_text : (head : Attribute) →
    ∀ place ∈ head.keyPlaces, HasKey head.text place.1 place.2
  -- A key stands in front of its target; below a nested object or an expansion it is shifted by the
  -- name and the brace.
  | .path key target => by
    intro place member
    obtain rfl := List.mem_singleton.mp member
    exact ⟨target, by simp [Attribute.text, String.append_assoc]⟩
  | .call key function slots => by
    intro place member
    obtain rfl := List.mem_singleton.mp member
    exact ⟨function ++ "(" ++ ", ".intercalate (slots.map Context.slotReference) ++ ")",
      by simp [Attribute.text, String.append_assoc]⟩
  | .nested name attributes => hasKey_shift (hasKey_texts attributes) (name ++ "\x7b") "\x7d"
  | .expanded name attributes =>
    hasKey_shift (hasKey_texts attributes) (Text.jsonString name ++ ": " ++ name ++ "->\x7b")
      "\x7d"
  | .plain _ | .resolved _ => nofun
termination_by structural head => head

/-- Attributes in a row have their keys where they are placed. -/
theorem hasKey_texts : (attributes : List Attribute) → (place : String × Value) →
    place ∈ Attribute.allKeyPlaces attributes →
      HasKey (", ".intercalate (Attribute.texts attributes)) place.1 place.2
  -- By induction on the attributes: those behind the first are shifted by its text and a separator.
  | [], _ => (absurd · List.not_mem_nil)
  | head :: rest, place => by
    have here := hasKey_text head
    have later := hasKey_texts rest
    unfold Attribute.allKeyPlaces Attribute.texts
    revert place
    refine List.forall_mem_append.mpr ⟨fun place member => ?_, ?_⟩
    · -- The keys of the first attribute stay where they are, whatever follows it.
      obtain ⟨behind, written⟩ :=
        exists_intercalate_cons ", " head.text (Attribute.texts rest)
      rw [written]
      exact (here place member).append behind
    · cases rest with
      | nil => exact nofun
      | cons second others =>
        have shifted := hasKey_shift later (head.text ++ ", ") ""
        unfold Attribute.texts at shifted ⊢
        rw [String.intercalate_cons_cons]
        rwa [String.append_empty] at shifted
termination_by structural attributes => attributes

end

/-- A statement has its keys where they are placed. -/
theorem Statement.hasKey_text (statement : Statement) :
    ∀ place ∈ statement.keyPlaces, HasKey statement.text place.1 place.2 := by
  -- Everything up to the brace of the projection stands in front of its keys.
  unfold Statement.keyPlaces
  split
  · exact nofun
  · rename_i attributes given
    have projected := hasKey_shift (hasKey_texts (delivered attributes))
      (statement.front ++ " " ++ "\x7b") "\x7d"
    have written : statement.text = statement.front ++ " " ++ "\x7b" ++
        ", ".intercalate (Attribute.texts (delivered attributes)) ++ "\x7d" := by
      unfold Statement.text Statement.front
      rw [given, Option.map_some, Option.getD_some, projectionText_eq, ← Attribute.texts_eq_map]
      simp only [String.append_assoc, -String.reduceAppend]
    rwa [← written] at projected

end Places

section Keys

/-- The keys of the aliases and calls in attributes, in the order of the text. -/
def keysOf (attributes : List Attribute) : List Value :=
  (Attribute.allKeyPlaces attributes).map Prod.snd

/-- Keys are the same behind any text. -/
theorem map_snd_shift (front : String) (places : List (String × Value)) :
    (shift front places).map Prod.snd = places.map Prod.snd := by
  rw [shift, List.map_map]
  rfl

/-- The keys of attributes are those of the first one and of the others. -/
theorem keysOf_cons (head : Attribute) (rest : List Attribute) :
    keysOf (head :: rest) = head.keyPlaces.map Prod.snd ++ keysOf rest := by
  rw [keysOf, Attribute.allKeyPlaces, List.map_append, map_snd_shift, keysOf]

/-- The keys of attributes in two rows are those of both. -/
theorem keysOf_append (first second : List Attribute) :
    keysOf (first ++ second) = keysOf first ++ keysOf second := by
  induction first with
  | nil => rfl
  | cons head rest ih => rw [List.cons_append, keysOf_cons, keysOf_cons, ih, List.append_assoc]

mutual

/--
The names of the aliases and the computed fields that a projection delivers, in order: those with a
path or with a function and arguments that can be written, and inside fields that are delivered.
-/
def writtenKeys (limit depth : Nat) : Projection → List Value
  | .alias name path => if isPath path then [name] else []
  | .computed name function arguments =>
    if (callOf? function arguments).isSome then [name] else []
  | .nested name fields =>
    if Projection.isTextThat isName name then allWrittenKeys limit depth fields else []
  | .expanded name fields =>
    if Projection.isTextThat isName name && decide (depth < limit) then
      allWrittenKeys limit (depth + 1) fields
    else []
  | .included _ | .excluded _ | .resolved _ | .stray _ => []
termination_by structural input => input

/-- The names of the aliases and the computed fields that projections in a row deliver. -/
def allWrittenKeys (limit depth : Nat) : List Projection → List Value
  | [] => []
  | item :: rest => writtenKeys limit depth item ++ allWrittenKeys limit depth rest
termination_by structural input => input

end

/-- The name of an attribute is the one that is given, if it is a name. -/
theorem isSome_nameOf? (name : Value) : (nameOf? name).Yields fun result _ =>
    result.isSome = Projection.isTextThat isName name := by
  -- A text that is no name is told of and dropped; what is no text is refused.
  unfold nameOf?
  split
  · rename_i words
    split
    · rename_i valid
      exact .pure valid.symm
    · rename_i invalid
      exact .noted (.pure (Bool.eq_false_iff.mpr invalid).symm)
  · exact .refuse

/-- An alias to a path is delivered under its key. -/
theorem keys_convertAlias (name path : Value) : (convertAlias name path).Yields fun result _ =>
    keysOf result.toList = if isPath path then [name] else [] := by
  -- An alias is kept exactly when what it stands for is a path.
  have dropped (no : isPath path = false) : (convertAlias.drop name path).Yields fun result _ =>
      keysOf result.toList = if isPath path then [name] else [] :=
    .written ((ensures_dropAttribute _ _ _).yields.mono fun result _ none_ => by
      rw [none_, no]
      rfl)
  unfold convertAlias
  split
  · rename_i words
    split
    · rename_i valid
      exact .pure (if_pos valid).symm
    · rename_i invalid
      exact dropped (Bool.eq_false_iff.mpr invalid)
  · rename_i other
    exact dropped (by unfold isPath; split <;> simp_all)

/-- A call that can be written is delivered under its key. -/
theorem keys_convertComputed (name function : Value) (arguments : List Value) :
    (convertComputed name function arguments).Yields fun result _ =>
      keysOf result.toList = if (callOf? function arguments).isSome then [name] else [] := by
  have dropped (reason : Reason) (message : String) (none_ : callOf? function arguments = none) :
      (dropAttribute reason message name).Yields fun result _ =>
        keysOf result.toList = if (callOf? function arguments).isSome then [name] else [] :=
    (ensures_dropAttribute _ _ _).yields.mono fun result _ nothing => by
      rw [nothing, none_]
      rfl
  unfold convertComputed
  split
  · rename_i called
    split
    · rename_i valid
      -- The arguments are bound exactly if all of them have a form.
      have bound : ((bindArguments arguments).run).lift.Yields fun result _ =>
          result.toOption.isSome = (callOf? (.text called) arguments).isSome := by
        refine .lift fun slot => ⟨_, _, _, gives_bindArguments arguments slot, ?_⟩
        simp only [callOf?, if_pos valid]
        cases arguments.mapM Value.toJson <;> rfl
      refine .bind bound fun result _ same => ?_
      split
      · exact .pure (by rw [← same]; rfl)
      · refine .written (dropped _ _ ?_)
        rw [← Option.not_isSome_iff_eq_none, ← same]
        exact Bool.false_ne_true
    · rename_i invalid
      exact dropped _ _ (by simp [callOf?, invalid])
  · exact .refuse

/-- A reference that is left unresolved has no keys. -/
theorem keys_leaveUnresolved (limit : Nat) (name : String) :
    (leaveUnresolved limit name).Yields fun result _ => keysOf result.toList = [] :=
  .noted (.pure rfl)

variable (limit : Nat)

-- By induction on the projections: a field that is dropped takes the keys inside it with it.
mutual

/-- A projection is converted to an attribute with the keys that it delivers. -/
theorem keys_convertField : (item : Projection) → (depth : Nat) →
    (convertField limit depth item).Yields fun result _ =>
      keysOf result.toList = writtenKeys limit depth item
  -- By induction on the item: what is below a field is read before its own key.
  | .excluded name, depth => (ensures_dropAttribute _ _ _).yields.mono fun result _ none_ => by
    rw [none_]
    rfl
  | .alias name path, depth => keys_convertAlias name path
  | .computed name function arguments, depth => keys_convertComputed name function arguments
  | .included name, depth => by
    unfold convertField
    refine .bind (isSome_nameOf? name) fun known _ _ => .pure ?_
    cases known <;> rfl
  | .nested name fields, depth => by
    have inside := keys_convertFields fields depth
    unfold convertField writtenKeys
    refine .bind (isSome_nameOf? name) fun known _ named => ?_
    rw [← named]
    split
    · exact .pure rfl
    · refine .bind inside fun attributes _ keys => ?_
      rw [Option.isSome_some, if_pos rfl, ← keys]
      -- A field of which nothing is left is delivered as a whole.
      split
      · exact .pure rfl
      · exact .pure (by simp [keysOf, Attribute.allKeyPlaces, Attribute.keyPlaces, map_snd_shift])
  | .resolved name, depth => by
    unfold convertField
    refine .bind (isSome_nameOf? name) fun known _ _ => ?_
    split
    · exact .pure rfl
    · split
      · exact keys_leaveUnresolved limit _
      · exact .pure rfl
  | .expanded name fields, depth => by
    have inside := keys_convertFields fields (depth + 1)
    unfold convertField writtenKeys
    refine .bind (isSome_nameOf? name) fun known _ named => ?_
    rw [← named]
    split
    · exact .pure rfl
    · split
      · rename_i beyond
        refine (keys_leaveUnresolved limit _).mono fun result _ none_ => ?_
        rw [none_, if_neg (by simp; omega)]
      · rename_i within
        refine .bind inside fun attributes _ keys => .pure ?_
        rw [if_pos (by simp; omega), ← keys]
        simp [keysOf, Attribute.allKeyPlaces, Attribute.keyPlaces, map_snd_shift]
  | .stray _, depth => .refuse
termination_by structural item => item

/-- Projections are converted to attributes with the keys that they deliver. -/
theorem keys_convertFields : (items : List Projection) → (depth : Nat) →
    (convertFields limit depth items).Yields fun attributes _ =>
      keysOf attributes = allWrittenKeys limit depth items
  -- By induction on the items, whose keys are written one behind another.
  | [], depth => .pure rfl
  | item :: rest, depth => by
    have here := keys_convertField item depth
    have later := keys_convertFields rest depth
    unfold convertFields allWrittenKeys
    refine .bind (blind_requireKey _).yields fun _ _ _ => .bind here fun first _ keys => ?_
    refine .bind later fun others _ keys' => .pure ?_
    rw [keysOf_append, keys, keys']
termination_by structural items => items

end

/-- The system fields have no keys of their own. -/
theorem keysOf_delivered (attributes : List Attribute) :
    keysOf (delivered attributes) = keysOf attributes := by
  -- The system fields put in front are plain names, and those have no keys.
  have plain (names : List String) : keysOf (names.map Attribute.plain) = [] := by
    induction names with
    | nil => rfl
    | cons name rest ih =>
      rw [List.map_cons, keysOf_cons, ih]
      rfl
  rw [delivered, keysOf_append, plain, List.nil_append]

/-- Whether keys are those that the projection of a query delivers. -/
def AreWritten (settings : Settings) (query : Query) (keys : List Value) : Prop :=
  ∃ fields notices, (Projection.readTop settings.depthLimit query.projection).Gives fields notices ∧
    keys = allWrittenKeys settings.maxResolveDepth 0 fields

/-- The projection of a query has the keys that are written for it. -/
theorem keys_of_projectionOf {settings : Settings} {query : Query} {context after : Context}
    {projection : Option (List Attribute)}
    (ran : projectionOf settings query context = .ok (projection, after)) :
    AreWritten settings query (keysOf (projection.getD [])) := by
  -- Either there is no projection, or its fields were converted one by one.
  obtain ⟨fields, notices, given, ⟨null, rfl, -⟩ | ⟨between, attributes, -, converted, rfl⟩⟩ :=
    fields_of_projectionOf ran
  · -- A projection that is left out has no fields.
    have left_out : query.projection = .null := by
      cases projection : query.projection <;> simp_all [Value.isNull]
    have empty : (Projection.readTop settings.depthLimit query.projection).Gives [] [] := by
      rw [left_out]
      exact Compile.gives_pure []
    obtain ⟨rfl, -⟩ := given.unique empty
    exact ⟨[], notices, given, rfl⟩
  · obtain ⟨-, -, keys⟩ := keys_convertFields _ fields 0 _ _ _ converted
    exact ⟨fields, notices, given, keys⟩

/-- The keys of a statement are those of its projection. -/
theorem Statement.keys_eq (statement : Statement) :
    statement.keyPlaces.map Prod.snd = keysOf (statement.projection.getD []) := by
  -- Shifting moves places only, and the keys stay in their order.
  unfold Statement.keyPlaces
  split
  · rename_i none_
    rw [none_]
    rfl
  · rename_i attributes given
    rw [map_snd_shift, given]
    exact keysOf_delivered attributes

end Keys

section Types

/-- The filter of a query starts with the clause that selects its types. -/
theorem typeClause_of_filterParts {settings : Settings} {query : Query}
    {conditions : List Condition} {context after : Context} {filter : List Expression}
    (ran : filterParts settings query conditions context = (filter, after)) :
    typeClause query <+: filter := by
  -- The type is the first of the four parts that are put together.
  have parts : filter = typeClause query ++ draftClause settings query ++
      (convertAll conditions context).1 ++
        (globalClause settings (convertAll conditions context).2).1 :=
    (Prod.mk.inj ran).1.symm
  rw [parts, List.append_assoc, List.append_assoc]
  exact List.prefix_append _ _

/-- A statement opens with the first part of its filter, if that is about a field. -/
theorem Statement.text_of_filter {statement : Statement} {part : Expression}
    {others : List Expression} (first : statement.filter = part :: others)
    (opens : part.text.toList.head? = some '_') :
    ∃ rest, statement.text = "*[" ++ part.text ++ rest := by
  -- Such a part is not the text that constrains nothing, so that it is not left out.
  have constrains : part.text ≠ Expression.alwaysText := by
    rintro same
    rw [same] at opens
    exact absurd opens (by decide)
  obtain ⟨behind, clause⟩ : ∃ behind,
      Expression.clauseText statement.filter = part.text ++ behind := by
    unfold Expression.clauseText
    rw [first, Expression.texts, List.filter_cons_of_pos (by simpa using constrains)]
    exact exists_intercalate_cons _ _ _
  have filled : (part.text ++ behind).isEmpty = false := by
    rw [String.isEmpty_eq_false_iff]
    rintro empty
    rw [(String.append_eq_empty_iff.mp empty).1] at opens
    exact absurd opens (by decide)
  refine ⟨behind ++ "]" ++ enclosed " | order(" (", ".intercalate (statement.order.map
    fun (field, direction) => field ++ " " ++ direction.keyword)) ")" ++
      enclosed "[" statement.slice.text "]" ++
        (statement.projection.map fun attributes => " " ++ projectionText attributes).getD "", ?_⟩
  rw [Statement.text, clause, enclosed, if_neg (by simp [filled])]
  simp only [String.append_assoc, -String.reduceAppend]
  rfl

end Types

/--
Names that are written into a statement cannot break out of it: a reader of JSON that starts behind
`_type == ` or `_type in ` finds the names of the types and stops where their literal ends, and one
that starts at the key of an alias or a computed field finds the key and stops at its colon,
whatever follows. The keys are those of all such fields that are delivered, in order.
-/
theorem inlined_names_read_back {settings : Settings} {query : Query}
    {compiled : Compiled Statement Value}
    (built : (Compiler.groq settings).compileQuery query = .ok (.statement compiled)) :
    (∀ name, query.types.names = [name] → ∃ rest, ReadsAt Text.readString compiled.query.text
      "*[_type == " (Text.jsonString name) rest name) ∧
    (1 < query.types.names.length → ∃ rest, ReadsAt Text.readStrings compiled.query.text
      "*[_type in " (Text.jsonStrings query.types.names) rest query.types.names) ∧
    AreWritten settings query (compiled.query.keyPlaces.map Prod.snd) ∧
    ∀ front name, (front, .text name) ∈ compiled.query.keyPlaces →
      ∃ rest, ReadsAt Text.readString compiled.query.text front (Text.jsonString name)
        (": " ++ rest) name := by
  obtain ⟨own, -, converted⟩ := Compiler.conditions_of_compileQuery built
  obtain ⟨_, _, _, _, _, filtered, -, -, -, projected, -⟩ :=
    stages_of_compile (statement_of_output converted)
  -- The types come first in the filter, and the filter comes first in the text.
  obtain ⟨others, parts⟩ := typeClause_of_filterParts filtered
  refine ⟨fun name one => ?_, fun several => ?_, ?_, fun front name placed => ?_⟩
  · have clause : typeClause query = [.hasType name] := by rw [typeClause, one]
    rw [clause] at parts
    obtain ⟨rest, written⟩ := compiled.query.text_of_filter parts.symm
      (by simp [Expression.text])
    refine ⟨rest, readsAt_of_append (Text.readString_jsonString name) ?_⟩
    rw [written, Expression.text, ← String.append_assoc]
    rfl
  · have clause : typeClause query = [.hasTypeAmong query.types.names] := by
      unfold typeClause
      split <;> simp_all
    rw [clause] at parts
    obtain ⟨rest, written⟩ := compiled.query.text_of_filter parts.symm
      (by simp [Expression.text])
    refine ⟨rest, readsAt_of_append (Text.readStrings_jsonStrings _) ?_⟩
    rw [written, Expression.text, ← String.append_assoc]
    rfl
  · rw [compiled.query.keys_eq]
    exact keys_of_projectionOf projected
  · obtain ⟨rest, written⟩ := compiled.query.hasKey_text _ placed
    exact ⟨rest, readsAt_of_append (Text.readString_jsonString name) written⟩

/-- A query whose type and output names try to close the literals that they are written in. -/
def breakingQuery : Query :=
  { Query.everything with
    types := .several ["a\"] || true //", "b\\"]
    projection := .map [(.text "author", .map [(.text "x\": y, \"z", .text "name"),
      (.text "😀\\", .map [(.text "fn", .text "round"), (.text "args", .list [.int 1])])])] }

/-- The names that try to close their literals are read back. -/
theorem inlined_names_read_back_breaking :
    ∃ compiled, (Compiler.groq Settings.standard).compileQuery breakingQuery =
        .ok (.statement compiled) ∧
      (∃ rest, ReadsAt Text.readStrings compiled.query.text "*[_type in "
        (Text.jsonStrings ["a\"] || true //", "b\\"]) rest ["a\"] || true //", "b\\"]) ∧
      compiled.query.keyPlaces.map Prod.snd = [.text "x\": y, \"z", .text "😀\\"] ∧
      ∀ front name, (front, .text name) ∈ compiled.query.keyPlaces →
        ∃ rest, ReadsAt Text.readString compiled.query.text front (Text.jsonString name)
          (": " ++ rest) name := by
  -- The texts hold quotes, backslashes and the marks of a comment, and yet each is read back as it
  -- was given.
  obtain ⟨compiled, built, keys⟩ : ∃ compiled,
      (Compiler.groq Settings.standard).compileQuery breakingQuery = .ok (.statement compiled) ∧
        compiled.query.keyPlaces.map Prod.snd = [.text "x\": y, \"z", .text "😀\\"] :=
    ⟨_, rfl, rfl⟩
  obtain ⟨-, several, -, placed⟩ := inlined_names_read_back built
  exact ⟨compiled, built, several (by decide), keys, placed⟩

end Groq

end ContentQuery
