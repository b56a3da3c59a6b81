import ContentQuery.Proofs.Groq.Preservation

/-! Global filters in the words of the language: where they are one conjunct of the clause. -/

namespace ContentQuery.Groq

/-- A level whose first disjunct has further conjuncts in front. -/
def Level.guarded (guards : List Formula) (level : Level) : Level :=
  match level.disjuncts with
  -- While the first disjunct is being read, its conjuncts are not listed yet.
  | [] => { level with conjuncts := guards ++ level.conjuncts }
  | first :: rest => { level with disjuncts := (guards ++ first) :: rest }

/-- The guards of a level: only the outermost one has any. -/
def guardsAt (guards : List Formula) (outer : List Level) : List Formula :=
  if outer.isEmpty then guards else []

/-- Levels of which the outermost one has further conjuncts in front. -/
def guardedLevels (guards : List Formula) : List Level → List Level
  | [] => []
  | level :: outer => level.guarded (guardsAt guards outer) :: guardedLevels guards outer

/-- A reader in front of which further conjuncts have been read. -/
def Reader.guarded (guards : List Formula) (reader : Reader) : Reader :=
  { reader with levels := guardedLevels guards reader.levels }

/-- Disjuncts of which the first one has further conjuncts in front. -/
def guardedDisjuncts (guards : List Formula) : List (List Formula) → List (List Formula)
  | [] => []
  | first :: rest => (guards ++ first) :: rest

section Levels

variable (guards : List Formula) (level : Level)

/-- Guards change nothing of the operand that is being read. -/
@[simp] theorem Level.guarded_text : (level.guarded guards).text = level.text := by
  unfold Level.guarded
  split <;> rfl

@[simp] theorem Level.guarded_group : (level.guarded guards).group = level.group := by
  unfold Level.guarded
  split <;> rfl

@[simp] theorem Level.guarded_negations :
    (level.guarded guards).negations = level.negations := by
  unfold Level.guarded
  split <;> rfl

@[simp] theorem Level.guarded_isVacant : (level.guarded guards).isVacant = level.isVacant := by
  simp [Level.isVacant]

@[simp] theorem Level.guarded_bare? : (level.guarded guards).bare? = level.bare? := by
  simp [Level.bare?]

/-- Guards stay in front of a character that is put into the operand. -/
@[simp] theorem Level.guarded_put (c : Char) :
    (level.guarded guards).put c = (level.put c).guarded guards := by
  unfold Level.guarded Level.put
  cases level.disjuncts <;> rfl

@[simp] theorem Level.guarded_unput :
    (level.guarded guards).unput = level.unput.guarded guards := by
  unfold Level.guarded Level.unput
  cases level.disjuncts <;> rfl

/-- Guards stay in front of the next conjunct. -/
@[simp] theorem Level.guarded_conjoin :
    (level.guarded guards).conjoin = level.conjoin.map (Level.guarded guards) := by
  unfold Level.conjoin Level.conjuncts?
  rw [Level.guarded_bare?, Level.guarded_negations]
  -- Without an operand, neither level goes on; with one, the guards stay where they were.
  cases level.bare? with
  | none => rfl
  | some operand => unfold Level.guarded; cases level.disjuncts <;> simp

/-- Guards stay in front of the first disjunct. -/
@[simp] theorem Level.guarded_disjuncts? :
    (level.guarded guards).disjuncts? = level.disjuncts?.map (guardedDisjuncts guards) := by
  unfold Level.disjuncts? Level.conjuncts?
  rw [Level.guarded_bare?, Level.guarded_negations]
  -- The last disjunct may be the first one, which is the one with the guards.
  cases level.bare? with
  | none => rfl
  | some operand => unfold Level.guarded; cases level.disjuncts <;> simp [guardedDisjuncts]

@[simp] theorem Level.guarded_disjoin :
    (level.guarded guards).disjoin = level.disjoin.map (Level.guarded guards) := by
  unfold Level.disjoin Level.disjuncts? Level.conjuncts?
  rw [Level.guarded_bare?, Level.guarded_negations]
  -- Once the first disjunct is complete, the guards belong to it and no longer to the level.
  cases level.bare? with
  | none => rfl
  | some operand => unfold Level.guarded; cases level.disjuncts <;> simp

/-- No guards change nothing. -/
@[simp] theorem Level.guarded_nil : level.guarded [] = level := by
  cases level with
  | mk disjuncts conjuncts negations group text => cases disjuncts <;> rfl

/-- Guards stay in front of a group that opens the operand. -/
theorem Level.guarded_group_eq (group : Option Formula) :
    { level.guarded guards with group } = { level with group }.guarded guards := by
  unfold Level.guarded
  cases level.disjuncts <;> rfl

end Levels

namespace Reader

variable (guards : List Formula)

/-- Closing a group reads the same behind guards. -/
theorem close_guarded (level : Level) (outer : List Level) :
    close (level.guarded (guardsAt guards outer)) (guardedLevels guards outer) =
      (close level outer).map (guarded guards) := by
  cases outer with
  | nil => rfl
  | cons parent outer =>
    -- The level that is closed lies inside another one, and so has no guards itself.
    have inner : level.guarded (guardsAt guards (parent :: outer)) = level :=
      Level.guarded_nil level
    rw [inner]
    cases done : level.disjuncts? with
    | none => simp [close, guardedLevels, done]
    | some disjuncts =>
      simp only [close, guardedLevels, guarded, done, Option.map_some, Level.guarded_group_eq]

/-- Taking a character into the operand does the same behind guards. -/
theorem absorb_guarded (awaited : List Char) (level : Level) (outer : List Level) (c : Char) :
    absorb awaited (level.guarded (guardsAt guards outer)) (guardedLevels guards outer) c =
      (absorb awaited level outer c).map (guarded guards) := by
  -- Brackets are awaited by the reader and not by the level, so that guards do not matter.
  unfold absorb
  split
  · simp [guarded, guardedLevels]
  · split
    · simp [guarded, guardedLevels]
    · split
      · simp [guarded, guardedLevels]
      · rfl

/-- Operators, parentheses and negations do the same behind guards. -/
theorem operate_guarded (level : Level) (outer : List Level) (c : Char) :
    operate (level.guarded (guardsAt guards outer)) (guardedLevels guards outer) c =
      (operate level outer c).map (guarded guards) := by
  -- Going on to the next operand keeps the guards in front of what has been read.
  have next (reached : Option Level) :
      (reached.map (Level.guarded (guardsAt guards outer))).map
          (fun next => (⟨.plain, [], next :: guardedLevels guards outer⟩ : Reader)) =
        (reached.map fun next => (⟨.plain, [], next :: outer⟩ : Reader)).map (guarded guards) := by
    cases reached <;> rfl
  -- The cases are those of the definition, in its order.
  unfold operate
  simp only [Level.guarded_isVacant, Level.guarded_text, Level.guarded_unput,
    Level.guarded_conjoin, Level.guarded_disjoin]
  split
  · rfl
  split
  · rfl
  split
  · obtain ⟨disjuncts, conjuncts, negations, group, text⟩ := level
    cases disjuncts <;> rfl
  split
  · exact close_guarded guards level outer
  split
  · exact next _
  split
  · exact next _
  · exact absorb_guarded guards [] level outer c

/-- Every character is read the same behind guards. -/
theorem step_guarded (reader : Reader) (c : Char) :
    (reader.guarded guards).step c = (reader.step c).map (guarded guards) := by
  obtain ⟨mode, awaited, levels⟩ := reader
  -- Only outside of quotation marks and comments does a character look at the level.
  cases levels with
  | nil => cases mode <;> rfl
  | cons level outer =>
    cases mode with
    | quoted mark | escaped mark | comment =>
      simp [guarded, guardedLevels, step]
    | plain =>
      simp only [guarded, guardedLevels, step, Level.guarded_text, Level.guarded_put,
        Level.guarded_unput]
      split
      · rfl
      split
      · rfl
      split
      · exact operate_guarded guards level outer c
      · exact absorb_guarded guards awaited level outer c

/-- Texts are read the same behind guards. -/
theorem run_guarded (reader : Reader) (chars : List Char) :
    (reader.guarded guards).run chars = (reader.run chars).map (guarded guards) := by
  -- By induction on the characters; the guards stand before all of them.
  induction chars generalizing reader with
  | nil => rfl
  | cons c rest ih =>
    rw [run_cons, run_cons, step_guarded]
    cases reader.step c with
    | none => rfl
    | some reached => exact ih reached

/-- At the end, the guards are in front of the first disjunct. -/
theorem finish_guarded (reader : Reader) :
    (reader.guarded guards).finish = reader.finish.map (guardedDisjuncts guards) := by
  obtain ⟨mode, awaited, levels⟩ := reader
  -- A clause ends with one level, which is the outermost one.
  rcases levels with _ | ⟨level, _ | ⟨next, outer⟩⟩
  · cases mode <;> cases awaited <;> rfl
  · have done : (level.guarded guards).disjuncts? =
        level.disjuncts?.map (guardedDisjuncts guards) := Level.guarded_disjuncts? guards level
    cases mode <;> cases awaited <;> first | rfl | exact done
  · cases mode <;> cases awaited <;> rfl

end Reader

/-- An expression behind operands is read with their formulas in front of its first disjunct. -/
theorem readExpression_guarded {texts : List String} {guards : List Formula}
    (reads : List.Forall₂ Reads (texts.map String.toList) guards) {raw : String}
    {disjuncts : List (List Formula)} (read : readExpression raw = some disjuncts) :
    readExpression (" && ".intercalate (texts ++ [raw])) =
      some (guardedDisjuncts guards disjuncts) := by
  -- Without operands in front, there are no guards and nothing to show.
  by_cases nothing : texts = []
  · subst nothing
    cases reads
    cases disjuncts <;> simpa [guardedDisjuncts] using read
  · obtain ⟨reached, ran, occupied, fresh, conjuncts⟩ :=
      Reader.run_conjuncts reads (by simpa using nothing) {} [] rfl rfl
    -- Behind the operands, the reader is where it started, but for the guards.
    have started : Reader.start.guarded guards =
        ⟨.plain, [], [{ disjuncts := reached.disjuncts, conjuncts := guards }]⟩ := by
      simp [Reader.start, Reader.guarded, guardedLevels, guardsAt, Level.guarded, fresh]
    have between : Reader.start.run (" && ".intercalate texts ++ " && ").toList =
        some (Reader.start.guarded guards) := by
      rw [String.toList_append, Reader.run_append, String.toList_intercalate, started]
      show (Reader.run ⟨.plain, [], [{}]⟩ _).bind _ = _
      rw [ran, Option.bind_some, Reader.run_and occupied conjuncts]
      rfl
    have text : " && ".intercalate (texts ++ [raw]) =
        " && ".intercalate texts ++ " && " ++ raw := by
      rw [String.intercalate_append_of_ne_nil nothing (by simp), String.intercalate_singleton]
    unfold readExpression at read ⊢
    rw [text, String.toList_append, Reader.run_append, between, Option.bind_some,
      Reader.run_guarded]
    cases went : Reader.start.run raw.toList with
    | none => simp [went] at read
    | some last =>
      rw [went, Option.bind_some] at read
      rw [Option.map_some, Option.bind_some, Reader.finish_guarded, read]
      rfl

/-- A clause with an expression of its own in the end: the other parts guard its first disjunct. -/
theorem read_clauseText_raw {parts : List Expression} (formed : ∀ part ∈ parts, part.WellFormed)
    {raw : String} {first : List Formula} {rest : List (List Formula)}
    (read : readExpression raw = some (first :: rest)) :
    ∃ disjuncts, readClause (Expression.clauseText (parts ++ [.raw raw])) = some disjuncts ∧
      ∀ truth, SomeHolds truth disjuncts ↔
        ((∀ part ∈ parts, part.formula.Holds truth) ∧ SomeHolds truth [first]) ∨
          SomeHolds truth rest := by
  -- The raw text is joined to the others by `&&` as it stands, so that only its first disjunct is
  -- guarded by them.
  by_cases constant : raw = Expression.alwaysText
  · -- The constant is left out, and is true by itself.
    subst constant
    have alone : first = [.atom "true"] ∧ rest = [] := by
      have known : readExpression Expression.alwaysText = some [[.atom "true"]] := rfl
      simpa using read.symm.trans known
    obtain ⟨rfl, rfl⟩ := alone
    have same : Expression.clauseText (parts ++ [.raw Expression.alwaysText]) =
        Expression.clauseText parts := by
      simp [Expression.clauseText, Expression.text]
    obtain ⟨disjuncts, clause, meaning⟩ := Expression.read_clauseText formed
    refine ⟨disjuncts, same ▸ clause, fun truth => ?_⟩
    rw [meaning truth]
    simp [SomeHolds, Formula.Holds]
  · -- Any other expression is written out behind the parts that guard it.
    have kept : Expression.written (parts ++ [.raw raw]) =
        Expression.written parts ++ [.raw raw] := by
      simp [Expression.written, Expression.text, constant]
    have reads := Expression.reads_written formed
    refine ⟨guardedDisjuncts ((Expression.written parts).map Expression.formula) (first :: rest),
      readClause_of_readExpression ?_, ?_⟩
    · rw [Expression.clauseText_eq, kept, List.map_append]
      exact readExpression_guarded (by simpa [Function.comp_def] using reads) read
    · intro truth
      rw [← Expression.written_hold formed truth]
      simp [SomeHolds, guardedDisjuncts, or_imp, forall_and]

/-- An expression has at least one disjunct. -/
theorem readExpression_ne_nil {raw : String} {disjuncts : List (List Formula)}
    (read : readExpression raw = some disjuncts) : disjuncts ≠ [] := by
  obtain ⟨reader, -, finished⟩ := Option.bind_eq_some_iff.mp read
  -- The operand that is complete at the end belongs to a disjunct of its own.
  have last {level : Level} (complete : level.disjuncts? = some disjuncts) : disjuncts ≠ [] := by
    obtain ⟨conjuncts, -, rfl⟩ := Option.map_eq_some_iff.mp complete
    simp
  obtain ⟨mode, awaited, levels⟩ := reader
  unfold Reader.finish at finished
  split at finished
  · exact last finished
  · exact last finished
  · exact nomatch finished

/-- An expression that can be read is read as one operand is: alone, it is the whole clause. -/
theorem clauseHolds_text {expression : Expression} (formed : expression.WellFormed)
    (truth : String → Prop) :
    ClauseHolds truth expression.text ↔ expression.formula.Holds truth := by
  -- A clause of one operand has one disjunct of one conjunct.
  have joined := readsAll_conjuncts (.cons (Expression.reads_text expression formed) .nil)
    (by simp)
  have read : readClause expression.text = some [[expression.formula]] :=
    readClause_of_readExpression (ReadsAll.readExpression (by simpa using joined))
  simp [ClauseHolds, read, SomeHolds]

/-- What is asked for beside a global filter: a type, no draft, and the fragments of conditions. -/
def Guarded (truth : String → Prop) (settings : Settings) (query : Query)
    (fragments : List Expression) : Prop :=
  TypesHold truth query ∧ (settings.excludesDrafts query = true → ¬ Says truth draftAtom) ∧
    ∀ fragment ∈ fragments, ClauseHolds truth fragment.text

/-- The parts of a filter whose global part is an expression: it stands behind the guards. -/
theorem filterParts_raw {settings : Settings} {raw : String}
    (unstructured : settings.globalFilter = .raw raw) (query : Query) (own : List Condition)
    {parts : List Expression} {after : Context}
    (filtered : filterParts settings query own .empty = (parts, after)) :
    ∃ guards, parts = guards ++ [.raw raw] ∧ (∀ guard ∈ guards, guard.WellFormed) ∧
      ∀ truth, (∀ guard ∈ guards, guard.formula.Holds truth) ↔
        Guarded truth settings query (convertAll own .empty).1 := by
  obtain ⟨typesFormed, typesSay⟩ := typeClause_says query
  obtain ⟨draftsFormed, draftsSay⟩ := draftClause_says settings query
  obtain ⟨fragments, literals, notices, gives, formed, -⟩ := ensures_convertAll own 0
  have converted : convertAll own .empty = (fragments, Context.empty.extend literals notices) :=
    gives .empty rfl
  -- The guards are everything that stands in front of the raw filter.
  refine ⟨typeClause query ++ draftClause settings query ++ fragments, ?_, ?_, fun truth => ?_⟩
  · have unfolded : filterParts settings query own .empty =
        (typeClause query ++ draftClause settings query ++ (convertAll own .empty).1 ++ [.raw raw],
          (convertAll own .empty).2) := by
      unfold filterParts globalClause
      rw [unstructured]
      rfl
    have same := congrArg Prod.fst (unfolded.symm.trans filtered)
    rw [converted] at same
    exact same.symm
  · intro guard member
    simp only [List.mem_append] at member
    rcases member with (type_ | draft) | here
    · exact typesFormed guard type_
    · exact draftsFormed guard draft
    · exact formed guard here
  · have each : (∀ fragment ∈ fragments, fragment.formula.Holds truth) ↔
        ∀ fragment ∈ fragments, ClauseHolds truth fragment.text :=
      forall₂_congr fun fragment member => (clauseHolds_text (formed fragment member) truth).symm
    rw [Guarded, converted, ← typesSay truth, ← draftsSay truth, ← each]
    simp only [List.forall_mem_append, and_assoc]

/--
What a raw global filter does to a clause, under every assignment of truth: the type, the drafts
and the conditions of the query guard its first disjunct only. It is one conjunct of the clause
exactly where none of its later disjuncts is true without the guards.
-/
theorem raw_filter_joined {settings : Settings} {raw : String} {query : Query}
    {compiled : Compiled Statement Value} {disjuncts : List (List Formula)}
    (unstructured : settings.globalFilter = .raw raw)
    (formed : readExpression raw = some disjuncts)
    (built : (Compiler.groq settings).compileQuery query = .ok (.statement compiled)) :
    ∃ own joined, (Compiler.groq settings).conditionsOf query = .ok own ∧
      readClause (Expression.clauseText compiled.query.filter) = some joined ∧ ∀ truth,
        let guarded := Guarded truth settings query (convertAll own .empty).1
        (SomeHolds truth joined ↔
          (guarded ∧ SomeHolds truth (disjuncts.take 1)) ∨ SomeHolds truth (disjuncts.drop 1)) ∧
        ((SomeHolds truth joined ↔ ClauseHolds truth raw ∧ guarded) ↔
          (SomeHolds truth (disjuncts.drop 1) → guarded)) := by
  obtain ⟨own, read, converted⟩ := Compiler.conditions_of_compileQuery built
  obtain ⟨after, filtered, -⟩ := filter_of_compile (statement_of_output converted)
  obtain ⟨guards, split, guardsFormed, guardsSay⟩ := filterParts_raw unstructured query own filtered
  -- An expression has a first disjunct, and the guards are its conjuncts.
  cases disjuncts with
  | nil => exact absurd rfl (readExpression_ne_nil formed)
  | cons first rest =>
    obtain ⟨joined, clause, meaning⟩ := read_clauseText_raw guardsFormed formed
    refine ⟨own, joined, read, split ▸ clause, fun truth => ?_⟩
    have alone : ClauseHolds truth raw ↔ SomeHolds truth [first] ∨ SomeHolds truth rest := by
      simp [ClauseHolds, readClause_of_readExpression formed, SomeHolds]
    have together := meaning truth
    rw [guardsSay truth] at together
    refine ⟨together, ?_⟩
    rw [together, alone]
    simp only [List.drop_succ_cons, List.drop_zero]
    constructor
    · -- A later disjunct makes the clause true, and so the conjunct of the guards.
      intro same later
      exact (same.mp (Or.inr later)).2
    · intro implied
      constructor
      · rintro (⟨guarded, here⟩ | later)
        · exact ⟨Or.inl here, guarded⟩
        · exact ⟨Or.inr later, implied later⟩
      · rintro ⟨here | later, guarded⟩
        · exact Or.inl ⟨guarded, here⟩
        · exact Or.inr later

/-- The settings of a compiler with a raw global filter of two alternatives. -/
def alternativeSettings : Settings :=
  { Settings.standard with globalFilter := .raw "a == 1 || b == 2" }

/-- The query for posts. -/
def postQuery : Query :=
  { Query.everything with types := .one "post" }

/-- For two alternatives, the type guards the first of them. -/
theorem raw_filter_joined_alternatives :
    ∃ compiled own joined,
      (Compiler.groq alternativeSettings).compileQuery postQuery = .ok (.statement compiled) ∧
        (Compiler.groq alternativeSettings).conditionsOf postQuery = .ok own ∧
          readClause (Expression.clauseText compiled.query.filter) = some joined ∧ ∀ truth,
            let guarded := Guarded truth alternativeSettings postQuery (convertAll own .empty).1
            (SomeHolds truth joined ↔
              (guarded ∧ SomeHolds truth [[.atom "a == 1"]]) ∨
                SomeHolds truth [[.atom "b == 2"]]) ∧
            ((SomeHolds truth joined ↔ ClauseHolds truth "a == 1 || b == 2" ∧ guarded) ↔
              (SomeHolds truth [[.atom "b == 2"]] → guarded)) := by
  obtain ⟨compiled, built⟩ : ∃ compiled,
      (Compiler.groq alternativeSettings).compileQuery postQuery = .ok (.statement compiled) :=
    ⟨_, rfl⟩
  have formed : readExpression "a == 1 || b == 2" =
      some [[.atom "a == 1"], [.atom "b == 2"]] := rfl
  obtain ⟨own, joined, read, clause, meaning⟩ := raw_filter_joined rfl formed built
  exact ⟨compiled, own, joined, built, read, clause, meaning⟩

/-- A document that is no post passes the clause when it meets the second alternative. -/
theorem raw_filter_leaks :
    ∃ compiled own joined, ∃ truth : String → Prop,
      (Compiler.groq alternativeSettings).compileQuery postQuery = .ok (.statement compiled) ∧
        (Compiler.groq alternativeSettings).conditionsOf postQuery = .ok own ∧
          readClause (Expression.clauseText compiled.query.filter) = some joined ∧
            SomeHolds truth joined ∧
              ¬ (ClauseHolds truth "a == 1 || b == 2" ∧
                Guarded truth alternativeSettings postQuery (convertAll own .empty).1) := by
  -- Only the second alternative is true, and it stands in the clause without the type.
  refine ⟨_, [], [[.atom "_type == \"post\"", .atom "a == 1"], [.atom "b == 2"]], (· = "b == 2"),
    rfl, rfl, rfl, ⟨[.atom "b == 2"], by simp, by simp [Formula.Holds]⟩, ?_⟩
  rintro ⟨-, type_, -⟩
  have other : ¬ (trimmed (typeAtom "post") = "b == 2") := by decide
  exact other type_

end ContentQuery.Groq
