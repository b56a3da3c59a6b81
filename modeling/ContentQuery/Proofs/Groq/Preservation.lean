import ContentQuery.Proofs.Groq.Meaning

/-! A filter that is compiled without notices asks for what its conditions ask for. -/

namespace ContentQuery.Groq

/-- Only the constant is the expression that constrains nothing. -/
theorem eq_always {expression : Expression} (always : expression.isAlways = true) :
    expression = .always := by
  cases expression <;> first | rfl | exact nomatch always

/-- The conjunction of what is left says what that says together; nothing is left of something. -/
theorem expresses_conjunction (given : Nat) {parts : List Expression}
    (formed : ∀ part ∈ parts, part.WellFormed) :
    (∀ expression, conjunction given parts = some expression →
      Expresses expression fun truth => ∀ part ∈ parts, part.formula.Holds truth) ∧
    (conjunction given parts = none → parts.length ≠ given) := by
  -- What constrains nothing holds in any case, so that only the other parts matter.
  have unconstrained (truth : String → Prop) :
      (∀ part ∈ parts.filter (!·.isAlways), part.formula.Holds truth) ↔
        ∀ part ∈ parts, part.formula.Holds truth := by
    refine ⟨fun every part member => ?_, fun every part member => ?_⟩
    · cases always : part.isAlways with
      | true => exact eq_always always ▸ Or.inl rfl
      | false => exact every part (by simp [member, always])
    · exact every part (List.mem_filter.mp member).1
  simp only [conjunction]
  split
  · rename_i constrained
    -- Something constrains, and the others are left out of the conjunction.
    have some_ : parts.filter (!·.isAlways) ≠ [] := by simpa using constrained
    have joined := expresses_all some_ fun part member => formed part (List.mem_filter.mp member).1
    refine ⟨?_, fun nothing => nomatch nothing⟩
    rintro _ ⟨⟩
    exact joined.mono unconstrained
  · rename_i constrained
    -- Nothing constrains: either nothing was asked for, or everything was dropped.
    have none_ : parts.filter (!·.isAlways) = [] := by simpa using constrained
    have trivially (truth : String → Prop) : True ↔ ∀ part ∈ parts, part.formula.Holds truth := by
      rw [← unconstrained truth, none_]
      simp
    split
    · refine ⟨?_, fun nothing => nomatch nothing⟩
      rintro _ ⟨⟩
      exact expresses_always.mono trivially
    · rename_i dropped
      obtain ⟨empty, some_⟩ : parts = [] ∧ ¬ given = 0 := by simpa using dropped
      refine ⟨fun _ found => (nomatch found), fun _ same => some_ ?_⟩
      rw [← same, empty]
      rfl

/-- The disjunction of what is left says what one part of it says. -/
theorem expresses_disjunction {given : Nat} {parts : List Expression}
    (formed : ∀ part ∈ parts, part.WellFormed) (fits : parts.length ≤ given) :
    (∀ expression, disjunction given parts = some expression →
      Expresses expression fun truth => ∃ part ∈ parts, part.formula.Holds truth) ∧
    (disjunction given parts = none → parts.length ≠ given) := by
  unfold disjunction
  split
  · rename_i zero
    -- A disjunction of nothing never holds.
    have empty : parts = [] := by
      simp only [beq_iff_eq] at zero
      exact List.length_eq_zero_iff.mp (by omega)
    refine ⟨?_, fun nothing => nomatch nothing⟩
    rintro _ ⟨⟩
    exact expresses_never.mono fun truth => by simp [empty]
  · rename_i positive
    split
    · rename_i always
      -- One part that constrains nothing frees the whole disjunction.
      obtain ⟨part, member, constant⟩ := List.any_eq_true.mp always
      refine ⟨?_, fun nothing => nomatch nothing⟩
      rintro _ ⟨⟩
      exact expresses_always.mono fun truth =>
        ⟨fun _ => ⟨part, member, eq_always constant ▸ Or.inl rfl⟩, fun _ => trivial⟩
    · split
      · rename_i empty
        refine ⟨fun _ found => (nomatch found), fun _ same => positive ?_⟩
        rw [← same, List.isEmpty_iff.mp empty]
        rfl
      · rename_i some_
        refine ⟨?_, fun nothing => nomatch nothing⟩
        rintro _ ⟨⟩
        exact expresses_any (by simpa using some_) formed

/--
What conversions give can be read; without a notice there is one result for each condition, and
the results say together, and as alternatives, what the conditions ask for.
-/
def AllFaithful (slot : Nat) (conditions : List Condition) (results : List Expression)
    (literals : List Value) (notices : List Notice) : Prop :=
  (∀ result ∈ results, result.WellFormed) ∧ results.length ≤ conditions.length ∧
    (notices = [] → literals.length = slotsOfAll conditions ∧
      results.length = conditions.length ∧ ∀ truth,
        ((∀ result ∈ results, result.formula.Holds truth) ↔ AllHold truth slot conditions) ∧
        ((∃ result ∈ results, result.formula.Holds truth) ↔ AnyHolds truth slot conditions))

section Joined

variable {slot : Nat} {conditions : List Condition} {results : List Expression}
  {literals : List Value} {notices : List Notice}
  (faithful : AllFaithful slot conditions results literals notices)
include faithful

/-- What joins results is faithful to what their conditions ask for, if it says what they say. -/
theorem AllFaithful.joined {joined : Option Expression} {saying meaning : (String → Prop) → Prop}
    (said : ∀ expression, joined = some expression → Expresses expression saying)
    (lost : joined = none → results.length ≠ conditions.length)
    (agree : (∀ truth,
        ((∀ result ∈ results, result.formula.Holds truth) ↔ AllHold truth slot conditions) ∧
        ((∃ result ∈ results, result.formula.Holds truth) ↔ AnyHolds truth slot conditions)) →
      ∀ truth, saying truth ↔ meaning truth) :
    Faithful (slotsOfAll conditions) meaning joined literals notices := by
  refine ⟨fun expression found => (said expression found).1, fun silent => ?_⟩
  obtain ⟨counted, each, meant⟩ := faithful.2.2 silent
  -- Without a notice there is a result for each condition, so that nothing was dropped.
  cases found : joined with
  | none => exact absurd each (lost found)
  | some expression =>
    exact ⟨counted, expression, rfl, (said expression found).mono (agree meant)⟩

/-- A conjunction and a disjunction are faithful when their operands are. -/
theorem AllFaithful.connectives :
    Faithful (slotsOfAll conditions) (fun truth => AllHold truth slot conditions)
        (conjunction conditions.length results) literals notices ∧
      Faithful (slotsOfAll conditions) (fun truth => AnyHolds truth slot conditions)
        (disjunction conditions.length results) literals notices := by
  -- Both are made of the same parts, and say of them what the connective says.
  obtain ⟨all, allLost⟩ := expresses_conjunction conditions.length faithful.1
  obtain ⟨any, anyLost⟩ := expresses_disjunction faithful.1 faithful.2.1
  exact ⟨faithful.joined all allLost fun agree truth => (agree truth).1,
    faithful.joined any anyLost fun agree truth => (agree truth).2⟩

end Joined

/-- A negation is faithful when its operand is. -/
theorem Faithful.negation {slots : Nat} {meaning : (String → Prop) → Prop}
    {result : Option Expression} {literals : List Value} {notices : List Notice}
    (faithful : Faithful slots meaning result literals notices) :
    Faithful slots (fun truth => ¬ meaning truth) (negation result) literals notices := by
  obtain ⟨formed, meant⟩ := faithful
  -- A dropped operand left a notice, so that nothing is said about its negation.
  cases result with
  | none =>
    refine ⟨fun _ found => (nomatch found), fun silent => ?_⟩
    obtain ⟨_, _, found, _⟩ := meant silent
    exact nomatch found
  | some operand =>
    have denied : ∃ expression, Groq.negation (some operand) = some expression ∧
        expression.WellFormed ∧
          ∀ truth, expression.formula.Holds truth ↔ ¬ operand.formula.Holds truth := by
      -- The negation of what always holds is a constant of its own.
      cases always : operand.isAlways with
      | true =>
        rw [eq_always always]
        exact ⟨.never, rfl, trivial, fun truth =>
          (expresses_never.2 truth).trans (by simp [(expresses_always.2 truth).mpr trivial])⟩
      | false =>
        have kept : Groq.negation (some operand) = some (.not operand) := by
          unfold Groq.negation
          split <;> simp_all [Expression.isAlways]
        exact ⟨.not operand, kept, formed operand rfl, fun truth => Iff.rfl⟩
    obtain ⟨expression, found, readable, opposite⟩ := denied
    rw [found]
    refine ⟨by rintro _ ⟨⟩; exact readable, fun silent => ?_⟩
    obtain ⟨counted, same, alike, said⟩ := meant silent
    obtain rfl := Option.some.inj alike
    exact ⟨counted, expression, rfl, readable, fun truth =>
      (opposite truth).trans (not_congr (said.2 truth))⟩

mutual

/-- Without a notice, a condition is converted to what it asks for. -/
theorem ensures_convert : (condition : Condition) → (slot : Nat) →
    (convert condition).Ensures slot
      (Faithful (slotsOf condition) fun truth => Holds truth slot condition)
  -- By induction on the condition: the connectives mean of their members what they are written for.
  | .leaf field comparison value, slot => ensures_convertLeaf field comparison value slot
  | .all conditions, slot =>
    .bind (ensures_convertAll conditions slot) fun _ literals notices faithful =>
      .pure (by rw [List.append_nil, List.append_nil]; exact faithful.connectives.1)
  | .any conditions, slot =>
    .bind (ensures_convertAll conditions slot) fun _ literals notices faithful =>
      .pure (by rw [List.append_nil, List.append_nil]; exact faithful.connectives.2)
  | .not condition, slot =>
    .bind (ensures_convert condition slot) fun _ literals notices faithful =>
      .pure (by rw [List.append_nil, List.append_nil]; exact faithful.negation)
termination_by structural condition => condition

/-- Without a notice, conditions are converted to what they ask for, one by one. -/
theorem ensures_convertAll : (conditions : List Condition) → (slot : Nat) →
    (convertAll conditions).Ensures slot (AllFaithful slot conditions)
  -- By induction on the conditions, each from the slot behind the literals of the former.
  | [], slot => .pure ⟨by simp, by simp, fun _ => by simp [slotsOfAll, AllHold, AnyHolds]⟩
  | condition :: rest, slot => by
    refine .bind (ensures_convert condition slot) fun result literals notices first =>
      .bind (ensures_convertAll rest _) fun results literals' notices' others => .pure ?_
    obtain ⟨formed, meant⟩ := first
    obtain ⟨formed', fits, meant'⟩ := others
    refine ⟨?_, ?_, fun silent => ?_⟩
    · intro part member
      rcases List.mem_append.mp member with own | other
      · exact formed part (by simpa using own)
      · exact formed' part other
    · cases result <;> simp <;> omega
    · -- No notice was left by either, so that the rest starts behind the slots of the first.
      obtain ⟨quiet, quiet'⟩ : notices = [] ∧ notices' = [] := by simpa using silent
      obtain ⟨counted, expression, rfl, said⟩ := meant quiet
      obtain ⟨counted', each, agree⟩ := meant' quiet'
      rw [counted] at agree
      refine ⟨by simp [slotsOfAll, counted, counted'], by simp [each], fun truth => ⟨?_, ?_⟩⟩
      · simp [AllHold, said.2 truth, (agree truth).1]
      · simp [AnyHolds, said.2 truth, (agree truth).2]
termination_by structural conditions => conditions

end

/-- What the selection of types asks for. -/
def TypesHold (truth : String → Prop) (query : Query) : Prop :=
  match query.types.names with
  | [] => True
  | [name] => Says truth (typeAtom name)
  | names => Says truth (typesAtom names)

/-- The clause about types can be read and says what the selection asks for. -/
theorem typeClause_says (query : Query) :
    (∀ part ∈ typeClause query, part.WellFormed) ∧ ∀ truth,
      (∀ part ∈ typeClause query, part.formula.Holds truth) ↔ TypesHold truth query := by
  -- A clause of one expression says what the expression says.
  have alone {expression : Expression} {meaning : (String → Prop) → Prop}
      (said : Expresses expression meaning) :
      (∀ part ∈ [expression], part.WellFormed) ∧ ∀ truth,
        (∀ part ∈ [expression], part.formula.Holds truth) ↔ meaning truth :=
    ⟨by simpa using said.1, fun truth => by simpa using said.2 truth⟩
  unfold typeClause TypesHold
  rcases query.types.names with _ | ⟨name, _ | ⟨second, more⟩⟩
  · simp
  · exact alone (expresses_hasType name)
  · exact alone (expresses_hasTypeAmong (name :: second :: more))

/-- The clause about drafts can be read and denies the atom for drafts where it is there. -/
theorem draftClause_says (settings : Settings) (query : Query) :
    (∀ part ∈ draftClause settings query, part.WellFormed) ∧ ∀ truth,
      (∀ part ∈ draftClause settings query, part.formula.Holds truth) ↔
        (settings.excludesDrafts query = true → ¬ Says truth draftAtom) := by
  -- Drafts are excluded by one part, or there is none.
  unfold draftClause
  split
  · rename_i excluded
    exact ⟨by simpa using expresses_published.1, fun truth => by
      simpa [excluded] using expresses_published.2 truth⟩
  · rename_i included
    exact ⟨by simp, fun truth => by simp [included]⟩

/-- The parts of a filter whose global part is a list of conditions. -/
theorem ensures_filterParts {settings : Settings} {nodes : List Value}
    {everywhere : List Condition}
    (structured : settings.globalFilter = .conditions nodes everywhere)
    (query : Query) (own : List Condition) :
    (filterParts settings query own).Ensures 0 fun parts _ notices =>
      (∀ part ∈ parts, part.WellFormed) ∧
        (notices = [] → ∀ truth, (∀ part ∈ parts, part.formula.Holds truth) ↔
          TypesHold truth query ∧
            (settings.excludesDrafts query = true → ¬ Says truth draftAtom) ∧
              AllHold truth 0 (own ++ everywhere)) := by
  obtain ⟨typesFormed, typesSay⟩ := typeClause_says query
  obtain ⟨draftsFormed, draftsSay⟩ := draftClause_says settings query
  -- Global conditions are converted like those of the query, behind their slots.
  have clause : globalClause settings = convertAll everywhere := by
    unfold globalClause
    rw [structured]
  refine .bind (ensures_convertAll own 0) fun results literals notices first => ?_
  rw [clause]
  refine .bind (ensures_convertAll everywhere _) fun results' literals' notices' second => .pure ?_
  obtain ⟨formed, -, meant⟩ := first
  obtain ⟨formed', -, meant'⟩ := second
  refine ⟨?_, fun silent truth => ?_⟩
  · intro part member
    simp only [List.mem_append] at member
    rcases member with ((type_ | draft) | here) | there
    · exact typesFormed part type_
    · exact draftsFormed part draft
    · exact formed part here
    · exact formed' part there
  · obtain ⟨quiet, quiet'⟩ : notices = [] ∧ notices' = [] := by simpa using silent
    obtain ⟨counted, _, agree⟩ := meant quiet
    obtain ⟨_, _, agree'⟩ := meant' quiet'
    rw [counted] at agree'
    rw [allHold_append, ← typesSay truth, ← draftsSay truth, ← (agree truth).1,
      ← (agree' truth).1]
    simp only [List.forall_mem_append, and_assoc]

/--
The filter clause of a query that is compiled without notices can be read, and under every
assignment of truth to its atoms it is true exactly when the query selects the type, drafts are
included or the document is none, and all conditions of the query and of the compiler hold.
-/
theorem filter_means_conditions {settings : Settings} {query : Query}
    {compiled : Compiled Statement Value} {nodes : List Value} {everywhere : List Condition}
    (structured : settings.globalFilter = .conditions nodes everywhere)
    (built : (Compiler.groq settings).compileQuery query = .ok (.statement compiled))
    (silent : compiled.notices = []) :
    ∃ own disjuncts, (Compiler.groq settings).conditionsOf query = .ok own ∧
      readClause (Expression.clauseText compiled.query.filter) = some disjuncts ∧
        ∀ truth, SomeHolds truth disjuncts ↔
          TypesHold truth query ∧
            (settings.excludesDrafts query = true → ¬ Says truth draftAtom) ∧
              AllHold truth 0 (own ++ everywhere) := by
  obtain ⟨own, read, converted⟩ := Compiler.conditions_of_compileQuery built
  obtain ⟨after, filtered, kept⟩ := filter_of_compile (statement_of_output converted)
  -- No notice at the end means that the filter gave none.
  obtain ⟨literals, notices, extended, formed, meant⟩ :=
    (ensures_filterParts structured query own).of_run filtered
  have quiet : notices = [] := by
    rw [silent, extended] at kept
    simpa [Context.extend, Context.empty] using kept
  obtain ⟨disjuncts, clause, meaning⟩ := Expression.read_clauseText formed
  exact ⟨own, disjuncts, read, clause, fun truth => (meaning truth).trans (meant quiet truth)⟩

/-- The settings of a compiler that leaves drafts out and asks for one tenant everywhere. -/
def tenantSettings : Settings :=
  { Settings.standard with
    includeDrafts := .bool false
    globalFilter := .conditions [.leaf (.text "tenant") (.text "==") (.text "a")]
      [.leaf (.text "tenant") (.known .equal) (.text "a")] }

/-- A query for posts that have one of two tags or are not by an author. -/
def taggedQuery : Query :=
  { Query.everything with
    types := .one "post"
    filter := [.node .null .null .null .null
      (.list [.leaf (.text "tags") (.text "containsAny") (.list [.text "x", .text "y"]),
        .node .null .null .null .null .null
          (.leaf (.text "author") (.text "references") (.text "z"))]) .null] }

/-- A filter with alternatives, a negation and a global condition means what its conditions mean. -/
theorem filter_means_conditions_tagged :
    ∃ compiled own disjuncts,
      (Compiler.groq tenantSettings).compileQuery taggedQuery = .ok (.statement compiled) ∧
        (Compiler.groq tenantSettings).conditionsOf taggedQuery = .ok own ∧
          readClause (Expression.clauseText compiled.query.filter) = some disjuncts ∧
            ∀ truth, SomeHolds truth disjuncts ↔
              TypesHold truth taggedQuery ∧
                (tenantSettings.excludesDrafts taggedQuery = true → ¬ Says truth draftAtom) ∧
                  AllHold truth 0
                    (own ++ [.leaf (.text "tenant") (.known .equal) (.text "a")]) := by
  -- The compilation is run once, and leaves no notice.
  obtain ⟨compiled, built, silent⟩ : ∃ compiled,
      (Compiler.groq tenantSettings).compileQuery taggedQuery = .ok (.statement compiled) ∧
        compiled.notices = [] := ⟨_, rfl, rfl⟩
  obtain ⟨own, disjuncts, read, clause, meaning⟩ := filter_means_conditions rfl built silent
  exact ⟨compiled, own, disjuncts, built, read, clause, meaning⟩

end ContentQuery.Groq
