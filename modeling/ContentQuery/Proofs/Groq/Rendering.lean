import ContentQuery.Groq.Filter
import ContentQuery.Proofs.Groq.Spans

/-! The texts of expressions are read as what the expressions say. -/

namespace ContentQuery.Groq

/-- The atom that a field compares with a placeholder. -/
def comparisonAtom (field : String) (relation : Relation) (slot : Nat) : String :=
  field ++ " " ++ relation.text ++ " " ++ Context.slotReference slot

/-- The atom that a placeholder is contained in a field. -/
def containmentAtom (slot : Nat) (field : String) : String :=
  Context.slotReference slot ++ " in " ++ field

/-- The atom that a field is there. -/
def definedAtom (field : String) : String :=
  "defined(" ++ field ++ ")"

/-- The atom that a document refers to a placeholder. -/
def referenceAtom (slot : Nat) : String :=
  "references(" ++ Context.slotReference slot ++ ")"

/-- The atom that a field is a reference to a placeholder. -/
def pathReferenceAtom (field : String) (slot : Nat) : String :=
  field ++ "._ref == " ++ Context.slotReference slot

/-- The atom that a field is a list with a reference to a placeholder. -/
def listReferenceAtom (field : String) (slot : Nat) : String :=
  Context.slotReference slot ++ " in " ++ field ++ "[]._ref"

/-- The atom that a document has a type. -/
def typeAtom (name : String) : String :=
  "_type == " ++ Text.jsonString name

/-- The atom that a document has one of several types. -/
def typesAtom (names : List String) : String :=
  "_type in " ++ Text.jsonStrings names

/-- The atom that a document is a draft. -/
def draftAtom : String :=
  "_id in path(" ++ Text.jsonString "drafts.**" ++ ")"

namespace Expression

mutual

/-- What an expression says, in terms of its atoms. -/
def formula : Expression → Formula
  | .always => .atom alwaysText
  | .never => .atom "false"
  | .hasType name => .atom (trimmed (typeAtom name))
  | .hasTypeAmong names => .atom (trimmed (typesAtom names))
  | .published => .not (.atom (trimmed draftAtom))
  | .raw words => .atom (trimmed words)
  | .compare field relation slot => .atom (trimmed (comparisonAtom field relation slot))
  | .holds slot field => .atom (trimmed (containmentAtom slot field))
  | .defined field => .atom (trimmed (definedAtom field))
  | .undefined field => .not (.atom (trimmed (definedAtom field)))
  | .refers slot => .atom (trimmed (referenceAtom slot))
  | .refersThrough field slot =>
    .or (.atom (trimmed (pathReferenceAtom field slot)))
      (.atom (trimmed (listReferenceAtom field slot)))
  | .not operand => .not (formula operand)
  | .all operands => .all (formulas operands)
  | .any operands => .any (formulas operands)
termination_by structural input => input

/-- What expressions say. -/
def formulas : List Expression → List Formula
  | [] => []
  | operand :: rest => formula operand :: formulas rest
termination_by structural input => input

end

mutual

/-- Whether the fields of an expression are paths and what it joins is something. -/
def WellFormed : Expression → Prop
  -- A raw text is no operand in general, and is treated apart.
  | .raw _ => False
  | .compare field _ _ => pathGrammar.isPath field = true
  | .holds _ field => pathGrammar.isPath field = true
  | .defined field => pathGrammar.isPath field = true
  | .undefined field => pathGrammar.isPath field = true
  | .refersThrough field _ => pathGrammar.isPath field = true
  | .not operand => WellFormed operand
  | .all operands => operands ≠ [] ∧ AllWellFormed operands
  | .any operands => operands ≠ [] ∧ AllWellFormed operands
  | _ => True
termination_by structural input => input

/-- Whether each of several expressions is well-formed. -/
def AllWellFormed : List Expression → Prop
  | [] => True
  | operand :: rest => WellFormed operand ∧ AllWellFormed rest
termination_by structural input => input

end

/-- The formulas of expressions are those of each of them. -/
@[simp] theorem formulas_eq_map (operands : List Expression) :
    formulas operands = operands.map formula := by
  induction operands with
  | nil => rfl
  | cons operand rest ih => simp [formulas, ih]

/-- The texts of expressions are those of each of them. -/
@[simp] theorem texts_eq_map (operands : List Expression) : texts operands = operands.map text := by
  induction operands with
  | nil => rfl
  | cons operand rest ih => simp [texts, ih]

/-- Expressions are well-formed when each of them is. -/
@[simp] theorem allWellFormed_iff (operands : List Expression) :
    AllWellFormed operands ↔ ∀ operand ∈ operands, operand.WellFormed := by
  induction operands with
  | nil => simp [AllWellFormed]
  | cons operand rest ih => simp [AllWellFormed, ih]

end Expression

/-- The comparison of a path with a placeholder is an atom. -/
theorem reads_comparison {field : String} (valid : pathGrammar.isPath field = true)
    (relation : Relation) (slot : Nat) :
    Reads (comparisonAtom field relation slot).toList
      (.atom (trimmed (comparisonAtom field relation slot))) := by
  -- No relation is spelled with a character that a reader acts upon.
  have words : (" " ++ relation.text ++ " ").toList.any specials.contains = false := by
    cases relation <;> decide
  refine Opens.reads ?_
  have written : (comparisonAtom field relation slot).toList =
      field.toList ++ ((" " ++ relation.text ++ " ").toList ++
        (Context.slotReference slot).toList) := by
    simp [comparisonAtom]
  rw [written]
  exact (opens_path valid).append
    ((spans_of_words words).append (opens_slotReference slot).spans)

/-- The containment of a placeholder in a path is an atom. -/
theorem reads_containment {field : String} (valid : pathGrammar.isPath field = true) (slot : Nat) :
    Reads (containmentAtom slot field).toList (.atom (trimmed (containmentAtom slot field))) := by
  -- A placeholder, a word and a path.
  refine Opens.reads ?_
  have written : (containmentAtom slot field).toList =
      (Context.slotReference slot).toList ++ (" in ".toList ++ field.toList) := by
    simp [containmentAtom]
  rw [written]
  exact (opens_slotReference slot).append
    ((spans_of_words (by decide)).append (opens_path valid).spans)

/-- A call of a function is an atom when its argument is a span. -/
theorem opens_call {name argument : List Char} (opens : Opens name) (span : Spans argument) :
    Opens (name ++ '(' :: (argument ++ [')'])) :=
  opens.append (span.bracketed rfl)

/-- The test whether a path is there is an atom. -/
theorem reads_defined {field : String} (valid : pathGrammar.isPath field = true) :
    Reads (definedAtom field).toList (.atom (trimmed (definedAtom field))) := by
  -- A call of one word on a path.
  refine Opens.reads ?_
  have written : (definedAtom field).toList =
      "defined".toList ++ '(' :: (field.toList ++ [')']) := by
    simp [definedAtom]
  rw [written]
  exact opens_call ⟨_, _, rfl, by decide, spans_of_words (by decide)⟩ (opens_path valid).spans

/-- The test for references to a placeholder is an atom. -/
theorem reads_reference (slot : Nat) :
    Reads (referenceAtom slot).toList (.atom (trimmed (referenceAtom slot))) := by
  -- A call of one word on a placeholder.
  refine Opens.reads ?_
  have written : (referenceAtom slot).toList =
      "references".toList ++ '(' :: ((Context.slotReference slot).toList ++ [')']) := by
    simp [referenceAtom]
  rw [written]
  exact opens_call ⟨_, _, rfl, by decide, spans_of_words (by decide)⟩
    (opens_slotReference slot).spans

/-- The comparison of the reference in a path with a placeholder is an atom. -/
theorem reads_pathReference {field : String} (valid : pathGrammar.isPath field = true)
    (slot : Nat) :
    Reads (pathReferenceAtom field slot).toList
      (.atom (trimmed (pathReferenceAtom field slot))) := by
  -- A path, the key of the reference and a placeholder.
  refine Opens.reads ?_
  have written : (pathReferenceAtom field slot).toList =
      field.toList ++ ("._ref == ".toList ++ (Context.slotReference slot).toList) := by
    simp [pathReferenceAtom]
  rw [written]
  exact (opens_path valid).append
    ((spans_of_words (by decide)).append (opens_slotReference slot).spans)

/-- The containment of a placeholder in the references of a path is an atom. -/
theorem reads_listReference {field : String} (valid : pathGrammar.isPath field = true)
    (slot : Nat) :
    Reads (listReferenceAtom field slot).toList
      (.atom (trimmed (listReferenceAtom field slot))) := by
  refine Opens.reads ?_
  have written : (listReferenceAtom field slot).toList =
      (Context.slotReference slot).toList ++ (" in ".toList ++ (field.toList ++
        ('[' :: ([] ++ [']']) ++ "._ref".toList))) := by
    simp [listReferenceAtom]
  -- The empty brackets behind the field are a span like any others.
  rw [written]
  exact (opens_slotReference slot).append ((spans_of_words (by decide)).append
    ((opens_path valid).spans.append
      ((spans_nil.bracketed rfl).append (spans_of_words (by decide)))))

/-- The test for a type is an atom, whatever the type is called. -/
theorem reads_type (name : String) :
    Reads (typeAtom name).toList (.atom (trimmed (typeAtom name))) := by
  refine Opens.reads ?_
  rw [typeAtom, String.toList_append]
  exact Opens.append ⟨_, _, rfl, by decide, spans_of_words (by decide)⟩ (spans_jsonString name)

/-- The test for several types is an atom. -/
theorem reads_types (names : List String) :
    Reads (typesAtom names).toList (.atom (trimmed (typesAtom names))) := by
  refine Opens.reads ?_
  rw [typesAtom, String.toList_append]
  exact Opens.append ⟨_, _, rfl, by decide, spans_of_words (by decide)⟩
    (spans_jsonStrings names)

/-- The test for drafts is an atom. -/
theorem reads_draft : Reads draftAtom.toList (.atom (trimmed draftAtom)) := by
  -- A call of words on a quoted text.
  refine Opens.reads ?_
  have written : draftAtom.toList =
      "_id in path".toList ++ '(' :: ((Text.jsonString "drafts.**").toList ++ [')']) := by
    simp [draftAtom]
  rw [written]
  exact opens_call ⟨_, _, rfl, by decide, spans_of_words (by decide)⟩ (spans_jsonString _)

/-- One operand in parentheses is read like the operand. -/
theorem Reads.grouped {chars : List Char} {formula : Formula} (reads : Reads chars formula) :
    Reads ('(' :: (chars ++ [')'])) formula := by
  -- A group of one operand has one disjunct with one conjunct, which is the operand.
  have alone := readsAll_conjuncts (.cons reads .nil) (by simp)
  simpa [Formula.all, Formula.any] using alone.group

namespace Expression

mutual

/-- The text of a well-formed expression is one operand, whatever stands around it. -/
theorem reads_text : (expression : Expression) → expression.WellFormed →
    Reads expression.text.toList expression.formula
  | .always, _ => Opens.reads ⟨_, _, rfl, by decide, spans_of_words (by decide)⟩
  | .never, _ => Opens.reads ⟨_, _, rfl, by decide, spans_of_words (by decide)⟩
  | .hasType name, _ => reads_type name
  | .hasTypeAmong names, _ => reads_types names
  | .published, _ => reads_draft.grouped.not
  | .compare _ relation slot, valid => reads_comparison valid relation slot
  | .holds slot _, valid => reads_containment valid slot
  | .defined _, valid => reads_defined valid
  -- Negated atoms are written without parentheses, other negations with them.
  | .undefined field, valid => by
    have written : (undefined field).text.toList = '!' :: (definedAtom field).toList := by
      simp [text, definedAtom]
    rw [written]
    exact (reads_defined valid).not
  | .refers slot, _ => reads_reference slot
  -- A group of two disjuncts is one operand, whatever is joined to it.
  | .refersThrough field slot, valid => by
    have either := readsAll_disjuncts
      (.cons (reads_pathReference valid slot) (.cons (reads_listReference valid slot) .nil))
      (by simp)
    have written : (refersThrough field slot).text.toList =
        '(' :: (" || ".toList.intercalate [(pathReferenceAtom field slot).toList,
          (listReferenceAtom field slot).toList] ++ [')']) := by
      simp [text, pathReferenceAtom, listReferenceAtom]
    rw [written]
    exact either.group
  | .not operand, formed => by
    have written : (not operand).text.toList = '!' :: '(' :: (operand.text.toList ++ [')']) := by
      simp [text]
    rw [written]
    exact (reads_text operand formed).grouped.not
  | .all operands, formed => by
    have every := readsAll_conjuncts (reads_texts operands formed.2) (by simpa using formed.1)
    have written : (all operands).text.toList =
        '(' :: (" && ".toList.intercalate (operands.map (·.text.toList)) ++ [')']) := by
      simp [text, Function.comp_def]
    rw [written]
    simpa [formula, Formula.any] using every.group
  | .any operands, formed => by
    have one := readsAll_disjuncts (reads_texts operands formed.2) (by simpa using formed.1)
    have written : (any operands).text.toList =
        '(' :: (" || ".toList.intercalate (operands.map (·.text.toList)) ++ [')']) := by
      simp [text, Function.comp_def]
    rw [written]
    simpa [formula, Formula.all, Function.comp_def] using one.group
termination_by structural expression => expression

/-- The texts of well-formed expressions are operands. -/
theorem reads_texts : (operands : List Expression) → AllWellFormed operands →
    List.Forall₂ Reads (operands.map (·.text.toList)) (operands.map formula)
  | [], _ => .nil
  | operand :: rest, formed => .cons (reads_text operand formed.1) (reads_texts rest formed.2)
termination_by structural operands => operands

end

/-- Only what is always true is spelled like it. -/
theorem holds_of_text_eq_always {expression : Expression} (formed : expression.WellFormed)
    (spelled : expression.text = alwaysText) (truth : String → Prop) :
    expression.formula.Holds truth := by
  have reads := reads_text expression formed
  rw [spelled] at reads
  -- The same text is read as the constant, and a text is read in one way only.
  rw [reads.unique (reads_text .always trivial)]
  exact Or.inl rfl

/-- The parts of a clause that are written out. -/
def written (parts : List Expression) : List Expression :=
  parts.filter fun part => part.text != alwaysText

/-- A clause is the text of the parts that are written out. -/
theorem clauseText_eq (parts : List Expression) :
    clauseText parts = " && ".intercalate ((written parts).map text) := by
  simp [clauseText, written, List.filter_map, Function.comp_def]

/-- The parts of a clause that are written out can be read one after the other. -/
theorem reads_written {parts : List Expression} (formed : ∀ part ∈ parts, part.WellFormed) :
    List.Forall₂ Reads ((written parts).map (·.text.toList)) ((written parts).map formula) := by
  refine reads_texts (written parts) ((allWellFormed_iff _).mpr ?_)
  exact fun part member => formed part (List.mem_filter.mp member).1

/-- The parts that are left out are true anyway. -/
theorem written_hold {parts : List Expression} (formed : ∀ part ∈ parts, part.WellFormed)
    (truth : String → Prop) :
    (∀ part ∈ written parts, part.formula.Holds truth) ↔
      ∀ part ∈ parts, part.formula.Holds truth := by
  -- What is left out is spelled like the constant, and so is true.
  refine ⟨fun holds part member => ?_, fun holds part member => ?_⟩
  · by_cases spelled : part.text = alwaysText
    · exact holds_of_text_eq_always (formed part member) spelled truth
    · exact holds part (by simp [written, member, spelled])
  · exact holds part (List.mem_filter.mp member).1

/-- A clause of well-formed parts can be read, and is true when all of its parts are. -/
theorem read_clauseText {parts : List Expression} (formed : ∀ part ∈ parts, part.WellFormed) :
    ∃ disjuncts, readClause (clauseText parts) = some disjuncts ∧
      ∀ truth, SomeHolds truth disjuncts ↔ ∀ part ∈ parts, part.formula.Holds truth := by
  refine ⟨[(written parts).map formula], ?_, fun truth => ?_⟩
  · rw [clauseText_eq]
    -- Where all parts are left out, the clause is empty and asks for nothing.
    by_cases nothing : written parts = []
    · rw [nothing]
      rfl
    · have joined := readsAll_conjuncts (reads_written formed) (by simpa using nothing)
      refine readClause_of_readExpression (ReadsAll.readExpression ?_)
      simpa [Function.comp_def] using joined
  · rw [← written_hold formed truth]
    simp [SomeHolds]

end Expression

/-- Trimming takes away blanks only. -/
theorem mem_trimmed {text : String} {c : Char} (there : c ∈ text.toList)
    (unblank : isBlank c = false) : c ∈ (trimmed text).toList := by
  -- Every character is among the blanks at the end or among what is kept.
  have split : text.toList.reverse.takeWhile isBlank ++ text.toList.reverse.dropWhile isBlank =
      text.toList.reverse := List.takeWhile_append_dropWhile
  have member : c ∈ text.toList.reverse := List.mem_reverse.mpr there
  rw [← split] at member
  rcases List.mem_append.mp member with blank | kept
  · have isBlank_c := List.mem_takeWhile_imp blank
    rw [unblank] at isBlank_c
    exact nomatch isBlank_c
  · simpa [trimmed] using kept

/-- An atom with a character that neither constant has is true where it is said to be. -/
theorem holds_atom {text : String} {c : Char} (mark : c ∈ ['$', '(', '_']) (there : c ∈ text.toList)
    (truth : String → Prop) : (Formula.atom (trimmed text)).Holds truth ↔ truth (trimmed text) := by
  -- The mark is no blank, so that trimming keeps it.
  obtain ⟨unblank, notTrue, notFalse⟩ :
      isBlank c = false ∧ c ∉ "true".toList ∧ c ∉ "false".toList := by
    simp only [List.mem_cons, List.not_mem_nil, or_false] at mark
    rcases mark with rfl | rfl | rfl <;> decide
  have kept := mem_trimmed there unblank
  have untrue : trimmed text ≠ "true" := fun same => notTrue (same ▸ kept)
  have unfalse : trimmed text ≠ "false" := fun same => notFalse (same ▸ kept)
  simp [Formula.Holds, untrue, unfalse]

end ContentQuery.Groq
