import ContentQuery.Proofs.Groq.ProjectionReading

/-! The entries of a projection are those of its attributes: their keys, their expansions. -/

namespace ContentQuery.Groq

section Blanks

/-- The characters that are blanks. -/
theorem mem_of_isBlank {c : Char} (blank : isBlank c = true) : c ∈ [' ', '\t', '\r', '\n'] := by
  simpa [isBlank, Char.isWhitespace, or_assoc] using blank

/-- A name has no blanks. -/
theorem isBlank_nameTail {c : Char} (tail : isNameTail c = true) : isBlank c = false :=
  Bool.eq_false_iff.mpr fun blank =>
    not_mem_of_class (by decide) tail (mem_of_isBlank blank)

/-- A path takes no blank. -/
theorem isBlank_of_step {grammar : PathGrammar} {state next : PathState} {c : Char}
    (stepped : grammar.step state c = some next) : isBlank c = false := by
  refine Bool.eq_false_iff.mpr fun blank => ?_
  -- Of the blanks, only a line break is a character of paths, and only at the end of a text.
  obtain rfl : c = '\n' := by
    have accepted := isPathChar_of_step stepped
    have among := mem_of_isBlank blank
    simp only [List.mem_cons, List.not_mem_nil, or_false] at among
    rcases among with rfl | rfl | rfl | rfl
    · exact absurd accepted (by decide)
    · exact absurd accepted (by decide)
    · exact absurd accepted (by decide)
    · rfl
  have other : Text.isDigit '\n' = false ∧ isNameHead '\n' = false ∧ isNameTail '\n' = false := by
    decide
  cases state <;> simp_all [PathGrammar.step, PathGrammar.joint]

/-- The characters of one name are those that a name goes on with. -/
theorem isNameTail_of_isNameChars {chars : List Char} (valid : isNameChars chars = true) :
    ∀ c ∈ chars, isNameTail c = true := by
  -- What a name may begin with may also follow in it.
  cases chars with
  | nil => exact nofun
  | cons head tail =>
    obtain ⟨opens, goes⟩ := Bool.and_eq_true_iff.mp valid
    refine List.forall_mem_cons.mpr ⟨?_, List.all_eq_true.mp goes⟩
    simp only [isNameHead, Bool.or_eq_true] at opens
    simp only [isNameTail, Char.isAlphanum, Bool.or_eq_true]
    exact opens.imp_left Or.inl

/-- Without blanks, a text is what is read of it as a path or name, if that has none. -/
theorem unblanked_eq {text : String}
    (solid : ∀ c ∈ withoutFinalBreak text.toList, isBlank c = false) :
    unblanked text.toList = withoutFinalBreak text.toList := by
  have kept : unblanked (withoutFinalBreak text.toList) = withoutFinalBreak text.toList :=
    List.filter_eq_self.mpr fun c member => by simp [solid c member]
  rcases withoutFinalBreak_cases text.toList with same | more
  -- A line break at the end is no part of the name or path, and it is a blank.
  · exact (congrArg unblanked same).trans kept
  · refine (congrArg unblanked more).trans ?_
    rw [unblanked, List.filter_append, ← unblanked, kept]
    exact List.append_nil _

/-- Without blanks, a name is what is read of it as one. -/
theorem unblanked_name {name : String} (valid : isName name = true) :
    unblanked name.toList = withoutFinalBreak name.toList :=
  unblanked_eq fun c member => isBlank_nameTail (isNameTail_of_isNameChars valid c member)

/-- Without blanks, a path is what is read of it as one. -/
theorem unblanked_path {grammar : PathGrammar} {path : String}
    (valid : grammar.isPath path = true) :
    unblanked path.toList = withoutFinalBreak path.toList := by
  refine unblanked_eq fun c member => ?_
  obtain ⟨state, next, stepped⟩ := exists_step_of_mem valid c member
  exact isBlank_of_step stepped

end Blanks

section Arrows

/-- A head that ends in another character than the last of an arrow resolves nothing. -/
theorem arrows_eq_zero {head : List Char} (last : head.getLast? ≠ some '>') :
    Entry.arrows head = 0 := by
  refine if_neg fun ends => last ?_
  obtain ⟨before, rfl⟩ := List.isSuffixOf_iff_suffix.mp ends
  simp

/-- A head that ends in an arrow resolves a reference. -/
theorem arrows_append (before : List Char) : Entry.arrows (before ++ ['-', '>']) = 1 :=
  if_pos (List.isSuffixOf_iff_suffix.mpr ⟨before, rfl⟩)

/-- No name ends like an arrow. -/
theorem arrows_name {name : String} (valid : isName name = true) :
    Entry.arrows (unblanked name.toList) = 0 := by
  -- A name ends in a letter, a digit or a stroke.
  refine arrows_eq_zero fun last => ?_
  rw [unblanked_name valid] at last
  have tail := isNameTail_of_isNameChars valid _ (List.mem_of_getLast? last)
  exact absurd tail (by decide)

/-- Behind the end of an arrow, a path goes on with a name. -/
theorem step_arrow {grammar : PathGrammar} {state next : PathState}
    (stepped : grammar.step state '>' = some next) : next = .opening := by
  have other : Text.isDigit '>' = false ∧ isNameHead '>' = false ∧ isNameTail '>' = false := by
    decide
  cases state <;> simp_all [PathGrammar.step, PathGrammar.joint]

/-- No path ends like an arrow, although it may go through several. -/
theorem arrows_path {grammar : PathGrammar} {path : String} (valid : grammar.isPath path = true)
    (key : List Char) : Entry.arrows (key ++ ':' :: unblanked path.toList) = 0 := by
  rw [unblanked_path valid]
  refine arrows_eq_zero fun last => ?_
  -- The last step of a path leads to a state that a path may end in, and an arrow's does not.
  obtain ⟨final, went, ended⟩ := (Option.any_eq_true _ _).mp valid
  generalize withoutFinalBreak path.toList = chars at last went
  rcases List.eq_nil_or_concat chars with rfl | ⟨before, c, rfl⟩
  · simp at last
  · rw [List.concat_eq_append] at last went
    obtain rfl : c = '>' := by
      rw [← List.cons_append, ← List.append_assoc, List.getLast?_concat] at last
      exact Option.some.inj last
    rw [List.foldlM_append] at went
    obtain ⟨state, -, went⟩ := Option.bind_eq_some_iff.mp went
    have stepped : grammar.step state '>' = some final := by simpa using went
    rw [step_arrow stepped] at ended
    exact nomatch ended

end Arrows

namespace Attribute

mutual

/-- Whether the keys that are written out, at every level, are texts. -/
def HasTextKeys : Attribute → Prop
  | .plain _ | .resolved _ => True
  | .path key _ | .call key _ _ => ∃ name, key = .text name
  | .nested _ attributes | .expanded _ attributes => HaveTextKeys attributes
termination_by structural input => input

/-- Whether that is so for several attributes. -/
def HaveTextKeys : List Attribute → Prop
  | [] => True
  | head :: rest => HasTextKeys head ∧ HaveTextKeys rest
termination_by structural input => input

end

/-- Attributes have texts for keys when each of them does. -/
@[simp] theorem haveTextKeys_iff (attributes : List Attribute) :
    HaveTextKeys attributes ↔ ∀ head ∈ attributes, head.HasTextKeys := by
  induction attributes with
  | nil => simp [HaveTextKeys]
  | cons head rest ih => simp [HaveTextKeys, ih]

mutual

/-- The longest chain of expansions in an attribute. -/
def chain : Attribute → Nat
  | .plain _ | .path _ _ | .call _ _ _ => 0
  | .nested _ attributes => deepest attributes
  | .resolved _ => 1
  | .expanded _ attributes => 1 + deepest attributes
termination_by structural input => input

/-- The longest chain of expansions in one of several attributes. -/
def deepest : List Attribute → Nat
  | [] => 0
  | head :: rest => max (chain head) (deepest rest)
termination_by structural input => input

end

/-- The head of an entry for a name whose reference is resolved. -/
def resolvedHead (name : String) : List Char :=
  (Text.jsonString name).toList ++ ':' :: (unblanked name.toList ++ ['-', '>'])

mutual

/-- The entry that is read from the text of an attribute. -/
def entry : Attribute → Entry
  | .plain name => .bare (unblanked name.toList)
  | .path key target => .bare ((keyText key).toList ++ ':' :: unblanked target.toList)
  | .call key function slots =>
    .bare ((keyText key).toList ++ ':' :: (unblanked function.toList ++ '(' ::
      (unblanked (", ".intercalate (slots.map Context.slotReference)).toList ++ [')'])))
  | .nested name attributes => .braced (unblanked name.toList) (entries attributes)
  | .resolved name => .bare (resolvedHead name)
  | .expanded name attributes => .braced (resolvedHead name) (entries attributes)
termination_by structural input => input

/-- The entries that are read from the texts of attributes. -/
def entries : List Attribute → List Entry
  | [] => []
  | head :: rest => entry head :: entries rest
termination_by structural input => input

end

/-- The entries of attributes are those of each of them. -/
@[simp] theorem entries_eq_map (attributes : List Attribute) :
    entries attributes = attributes.map entry := by
  induction attributes with
  | nil => rfl
  | cons head rest ih => simp [entries, ih]

end Attribute

section Texts

open Attribute

/-- What is written for a name whose reference is resolved is read as the head of an entry. -/
theorem writes_resolved {name : String} (valid : isName name = true) :
    Writes (Text.jsonString name ++ ": " ++ name ++ "->").toList (resolvedHead name) := by
  -- The key, the colon, the name and the arrow are taken over one after the other.
  have arrow : Writes "->".toList ['-', '>'] := .literal (by decide)
  have colon : Writes ": ".toList [':'] := .literal (by decide)
  simp only [String.toList_append, List.append_assoc]
  exact (Writes.jsonString name).append
    (colon.append ((Writes.pathChars (pathChars_name valid)).append arrow))

/-- What is true of the characters of parts and of a separator is true of all between them. -/
theorem forall_mem_intercalate {accepts : Char → Prop} {separator : List Char}
    (between : ∀ c ∈ separator, accepts c) {parts : List (List Char)}
    (each : ∀ part ∈ parts, ∀ c ∈ part, accepts c) :
    ∀ c ∈ separator.intercalate parts, accepts c := by
  -- By induction on the parts.
  induction parts with
  | nil => simp [List.intercalate]
  | cons first rest ih =>
    obtain ⟨here, later⟩ := List.forall_mem_cons.mp each
    cases rest with
    | nil => simpa using here
    | cons second more =>
      rw [List.intercalate_cons_cons]
      exact List.forall_mem_append.mpr ⟨List.forall_mem_append.mpr ⟨here, between⟩, ih later⟩

/-- The placeholders that a function is called with have no marks of literals and calls. -/
theorem plain_arguments (slots : List Nat) :
    ∀ c ∈ (", ".intercalate (slots.map Context.slotReference)).toList, c ∉ spanMarks := by
  rw [String.toList_intercalate]
  refine forall_mem_intercalate (by simp [spanMarks]) fun part among => ?_
  -- A placeholder is a sign and a name.
  obtain ⟨reference, listed, rfl⟩ := List.mem_map.mp among
  obtain ⟨slot, -, rfl⟩ := List.mem_map.mp listed
  rw [Context.slotReference, String.toList_append]
  exact List.forall_mem_append.mpr ⟨by simp [spanMarks], fun c member =>
    not_mem_of_class (by decide) (isNameTail_of_mem_slotName member)⟩

/-- Attributes in braces behind a head are read as entries in braces. -/
theorem spells_nested {opening : String} {written : List Char} {attributes : List Attribute}
    (writes : Writes opening.toList written)
    (each : ∀ head ∈ attributes, Spells head.text.toList head.entry) :
    Spells (opening ++ "\x7b" ++ ", ".intercalate (texts attributes) ++ "\x7d").toList
      (.braced written (entries attributes)) := by
  have spelled := writes.spells_braced (fun head : Attribute => head.text.toList) entry each
  rw [texts_eq_map, entries_eq_map]
  simp only [String.toList_append, String.toList_intercalate, List.map_map, List.append_assoc]
  exact spelled

-- By induction on the attribute: what is in braces is read as it is at the top.
mutual

/-- An entry is read from the text of a well-formed attribute. -/
theorem spells_text : (head : Attribute) → head.WellFormed → head.HasTextKeys →
    Spells head.text.toList head.entry
  -- By induction on the attribute. What is quoted is spelled as it stands, and blanks between the
  -- parts are passed over.
  | .plain name, valid, _ => by
    have named : isNameChars (withoutFinalBreak name.toList) = true := valid
    refine (Writes.pathChars (pathChars_name valid)).spells fun empty => ?_
    rw [← unblanked_name valid, empty] at named
    exact nomatch named
  | .path key target, valid, ⟨name, same⟩ => by
    subst same
    have colon : Writes ": ".toList [':'] := .literal (by decide)
    unfold Attribute.text
    simp only [String.toList_append, List.append_assoc]
    exact ((Writes.jsonString name).append
      (colon.append (Writes.pathChars (pathChars_path valid)))).spells (by simp)
  | .call key function slots, valid, ⟨name, same⟩ => by
    subst same
    have colon : Writes ": ".toList [':'] := .literal (by decide)
    have called := Writes.call (plain_arguments slots)
    unfold Attribute.text
    simp only [String.toList_append, List.append_assoc]
    exact ((Writes.jsonString name).append (colon.append
      ((Writes.pathChars (pathChars_functionName valid)).append called))).spells (by simp)
  | .nested name attributes, ⟨valid, formed⟩, keyed =>
    spells_nested (.pathChars (pathChars_name valid)) (spells_texts attributes formed keyed)
  | .resolved name, valid, _ => (writes_resolved valid).spells (by simp [resolvedHead])
  | .expanded name attributes, ⟨valid, formed⟩, keyed => by
    have spelled := spells_nested (writes_resolved valid) (spells_texts attributes formed keyed)
    have arrow : "->\x7b" = "->" ++ "\x7b" := rfl
    unfold Attribute.text
    rwa [arrow, ← String.append_assoc]
termination_by structural head => head

/-- Entries are read from the texts of well-formed attributes. -/
theorem spells_texts : (attributes : List Attribute) → AllWellFormed attributes →
    HaveTextKeys attributes → ∀ head ∈ attributes, Spells head.text.toList head.entry
  | [], _, _ => nofun
  | head :: rest, ⟨formed, others⟩, ⟨keyed, later⟩ =>
    List.forall_mem_cons.mpr ⟨spells_text head formed keyed, spells_texts rest others later⟩
termination_by structural attributes => attributes

end

/-- System fields have no key that is written out, so that what is delivered has texts for keys. -/
theorem hasTextKeys_delivered {attributes : List Attribute}
    (keyed : ∀ head ∈ attributes, head.HasTextKeys) :
    ∀ head ∈ delivered attributes, head.HasTextKeys := by
  intro head member
  rcases mem_delivered member with own | ⟨field, -, rfl⟩
  · exact keyed head own
  · trivial

/-- A projection is read as the entries of its attributes and of the system fields. -/
theorem readProjection_projectionText {attributes : List Attribute}
    (formed : ∀ head ∈ attributes, head.WellFormed)
    (keyed : ∀ head ∈ attributes, head.HasTextKeys) :
    readProjection (projectionText attributes) = some ((delivered attributes).map entry) := by
  have each := spells_texts (delivered attributes)
    ((allWellFormed_iff _).mpr (wellFormed_delivered formed))
    ((haveTextKeys_iff _).mpr (hasTextKeys_delivered keyed))
  -- The braces of the projection stand behind an empty head.
  have nothing : Writes "".toList [] := fun _ _ _ _ => by simp [Scan.run]
  have whole := (spells_nested nothing each).run [] []
  rw [texts_eq_map, entries_eq_map, String.empty_append, ← projectionText_eq] at whole
  simp only [readProjection, whole]

end Texts

section Entries

open Attribute

mutual

/-- The chains of expansions in an attribute are those that are read from its text. -/
theorem chain_entry : (head : Attribute) → head.WellFormed → head.entry.chain = head.chain
  -- By induction on the attribute: an arrow is counted where a reference is resolved, and neither a
  -- name nor a path ends in one.
  | .plain name, valid => arrows_name valid
  | .path key target, valid => arrows_path valid _
  | .call key function slots, _ => by
    refine arrows_eq_zero fun last => ?_
    rw [← List.cons_append, ← List.append_assoc, ← List.cons_append, ← List.append_assoc,
      List.getLast?_concat] at last
    exact absurd last (by decide)
  | .nested name attributes, ⟨valid, formed⟩ => by
    have inside := deepest_entries attributes formed
    rw [entry, Entry.chain, arrows_name valid, inside, Nat.zero_add, chain]
  | .resolved name, _ => by
    rw [entry, Entry.chain, resolvedHead, ← List.cons_append, ← List.append_assoc, arrows_append]
    rfl
  | .expanded name attributes, ⟨_, formed⟩ => by
    have inside := deepest_entries attributes formed
    rw [entry, Entry.chain, resolvedHead, ← List.cons_append, ← List.append_assoc, arrows_append,
      inside, chain]
termination_by structural head => head

/-- So are those in several attributes. -/
theorem deepest_entries : (attributes : List Attribute) → AllWellFormed attributes →
    Entry.deepest (entries attributes) = deepest attributes
  | [], _ => rfl
  | head :: rest, ⟨formed, others⟩ => by
    rw [entries, Entry.deepest, chain_entry head formed, deepest_entries rest others, deepest]
termination_by structural attributes => attributes

end

/-- The system fields add no chain of expansions to a projection. -/
theorem deepest_delivered (attributes : List Attribute) :
    deepest (delivered attributes) = deepest attributes := by
  -- The system fields in front resolve nothing.
  have silent (system : List String) :
      deepest (system.map plain ++ attributes) = deepest attributes := by
    induction system with
    | nil => rfl
    | cons field rest ih => rw [List.map_cons, List.cons_append, deepest, ih, chain, Nat.zero_max]
  exact silent _

/-- A key that is written out is read as it was meant. -/
theorem key_written {name : String} {rest : List Char} {entry : Entry}
    (head : entry.head = (Text.jsonString name).toList ++ rest) : entry.key = name := by
  rw [Entry.key, head, Text.readString_jsonString]

/-- A name is its own key, without the line break that may end it. -/
theorem key_name {name : String} (valid : isName name = true) {entry : Entry}
    (head : entry.head = unblanked name.toList) :
    name = entry.key ∨ name = entry.key ++ "\n" := by
  -- A name is not quoted, so that it is its own key; only the break at its end is not read.
  rw [unblanked_name valid] at head
  -- A quotation mark is no character that a name begins with.
  have unquoted : Text.readString (withoutFinalBreak name.toList) = none := by
    unfold isName at valid
    cases chars : withoutFinalBreak name.toList with
    | nil => rfl
    | cons c rest =>
      rw [chars] at valid
      have opens : isNameHead c = true := (Bool.and_eq_true_iff.mp valid).1
      unfold Text.readString
      split
      · rename_i same
        rw [(List.cons.inj same).1] at opens
        exact absurd opens (by decide)
      · rfl
  have keyed : entry.key = String.ofList (withoutFinalBreak name.toList) := by
    rw [Entry.key, head, unquoted]
  rcases withoutFinalBreak_cases name.toList with same | more
  · rw [keyed, ← same]
    exact Or.inl String.ofList_toList.symm
  · refine Or.inr (String.toList_inj.mp ?_)
    rw [keyed, String.toList_append, String.toList_ofList]
    exact more

/-- The key of an entry is that of its attribute, but for a line break that may end a name. -/
theorem key_entry {head : Attribute} (formed : head.WellFormed) (keyed : head.HasTextKeys) :
    head.key = .text head.entry.key ∨ head.key = .text (head.entry.key ++ "\n") := by
  have either {name : String} (found : name = head.entry.key ∨ name = head.entry.key ++ "\n") :
      Value.text name = .text head.entry.key ∨ Value.text name = .text (head.entry.key ++ "\n") :=
    found.imp (congrArg Value.text) (congrArg Value.text)
  have written {name : String} (rest : List Char)
      (heads : head.entry.head = (Text.jsonString name).toList ++ rest) :
      Value.text name = .text head.entry.key ∨ Value.text name = .text (head.entry.key ++ "\n") :=
    either (Or.inl (key_written heads).symm)
  cases head with
  | plain name => exact either (key_name formed rfl)
  | nested name attributes => exact either (key_name formed.1 rfl)
  | path key target =>
    -- A key that was written out is a string in front of a colon.
    obtain ⟨name, rfl⟩ := keyed
    exact written _ rfl
  | call key function slots =>
    obtain ⟨name, rfl⟩ := keyed
    exact written _ rfl
  | resolved name => exact written _ rfl
  | expanded name attributes => exact written _ rfl

end Entries

end ContentQuery.Groq
