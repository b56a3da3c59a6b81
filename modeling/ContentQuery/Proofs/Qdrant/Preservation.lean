import ContentQuery.Proofs.Qdrant.Leaf
import ContentQuery.Proofs.Qdrant.Meaning

/-! A filter that is compiled without notices asks for what its conditions ask for. -/

namespace ContentQuery.Qdrant

open Compile (Ensures)

/-- Something dropped with a notice meets every condition on what is given without one. -/
theorem ensures_dropped {reason : Reason} {message : String} {field operator : Value}
    {post : Converted → Prop} :
    Ensures (do Compile.degrade reason message field operator; return Converted.dropped)
      fun result notices => notices = [] → post result := by
  have noted : (Compile.degrade reason message field operator).Ensures fun _ notices =>
      notices ≠ [] := .degrade (List.cons_ne_nil _ _)
  exact .bind noted fun _ notices some_ => .pure fun silent => absurd silent (by simpa using some_)

/-- What is given without a notice was not dropped and says what is meant. -/
def Faithful (meaning : (Clause → Prop) → Prop) (result : Converted) (notices : List Notice) :
    Prop :=
  notices = [] → result ≠ .dropped ∧ ∀ truth, result.Holds truth ↔ meaning truth

/-- What was not dropped says what is meant by the leaf, which is its own clause. -/
theorem ensures_leaf (payloadPrefix field : Value) (comparison : Comparison) (value : Value) :
    (convertLeaf payloadPrefix field comparison value).Ensures
      (Faithful fun truth => LeafHolds truth payloadPrefix field comparison value) := by
  -- A leaf that is kept holds as its clause does, by definition.
  rcases ensures_convertLeaf payloadPrefix field comparison value with
    refused | ⟨result, notices, gives, outcome⟩
  · exact Or.inl refused
  · refine Or.inr ⟨result, notices, gives, fun silent => ⟨outcome.kept silent, fun truth => ?_⟩⟩
    simp only [LeafHolds, gives .empty]

/-- What conversions give without a notice: one result for each condition, with its meaning. -/
def AllFaithful (payloadPrefix : Value) (conditions : List Condition) (results : List Converted)
    (notices : List Notice) : Prop :=
  notices = [] → (∀ result ∈ results, result ≠ .dropped) ∧ results.length = conditions.length ∧
    ∀ truth,
      ((∀ result ∈ results, result.Holds truth) ↔ AllHold truth payloadPrefix conditions) ∧
      ((∃ result ∈ results, result.Holds truth) ↔ AnyHolds truth payloadPrefix conditions)

/-- A negation is faithful when its operand is. -/
theorem ensures_negation {meaning : (Clause → Prop) → Prop} {result : Converted}
    {notices : List Notice} (faithful : Faithful meaning result notices) :
    (negation result).Ensures fun negated notices' =>
      Faithful (fun truth => ¬ meaning truth) negated (notices ++ notices') := by
  cases result with
  | clause found =>
    refine .pure fun silent => ⟨nofun, fun truth => ?_⟩
    rw [List.append_nil] at silent
    exact (Clause.holds_negated truth found).trans (not_congr ((faithful silent).2 truth))
  | dropped =>
    refine .pure fun silent => ?_
    rw [List.append_nil] at silent
    exact absurd rfl (faithful silent).1
  | unconstrained =>
    -- Nothing says that no point is wanted, which the notice is about.
    exact ensures_dropped.mono fun _ _ met silent => met (List.append_eq_nil_iff.mp silent).2

mutual

/-- Without a notice, a condition is converted to what it asks for. -/
theorem ensures_convert (payloadPrefix : Value) : (condition : Condition) →
    (convert payloadPrefix condition).Ensures
      (Faithful fun truth => Holds truth payloadPrefix condition)
  | .leaf field comparison value => ensures_leaf payloadPrefix field comparison value
  | .all conditions =>
    .bind (ensures_convertAll payloadPrefix conditions) fun results notices faithful =>
      .pure fun silent => by
        rw [List.append_nil] at silent
        obtain ⟨kept, -, agree⟩ := faithful silent
        obtain ⟨there, says_⟩ := holds_conjunction kept
        exact ⟨there, fun truth => (says_ truth).trans (agree truth).1⟩
  | .any conditions => by
    unfold convert
    split
    · exact ensures_dropped
    · rename_i some_
      refine .bind (ensures_convertAll payloadPrefix conditions) fun results notices faithful =>
        .pure fun silent => ?_
      rw [List.append_nil] at silent
      obtain ⟨kept, each, agree⟩ := faithful silent
      -- Each alternative has a result, so that there is one to choose from.
      have operands : results ≠ [] := by
        rintro rfl
        exact some_ (List.isEmpty_iff.mpr (List.length_eq_zero_iff.mp each.symm))
      obtain ⟨there, says_⟩ := holds_disjunction kept operands
      exact ⟨there, fun truth => (says_ truth).trans (agree truth).2⟩
  | .not condition =>
    .bind (ensures_convert payloadPrefix condition) fun _ _ faithful => ensures_negation faithful
termination_by structural condition => condition

/-- Without a notice, conditions are converted to what they ask for, one by one. -/
theorem ensures_convertAll (payloadPrefix : Value) : (conditions : List Condition) →
    (convertAll payloadPrefix conditions).Ensures (AllFaithful payloadPrefix conditions)
  | [] => .pure fun _ => ⟨by simp, rfl, fun truth => by simp [AllHold, AnyHolds]⟩
  | condition :: rest =>
    .bind (ensures_convert payloadPrefix condition) fun result notices first =>
      .bind (ensures_convertAll payloadPrefix rest) fun results notices' others =>
        .pure fun silent => by
          -- No notice was left by either, so that both are faithful.
          obtain ⟨quiet, quiet'⟩ : notices = [] ∧ notices' = [] := by simpa using silent
          obtain ⟨there, said⟩ := first quiet
          obtain ⟨kept, each, agree⟩ := others quiet'
          refine ⟨by simpa using ⟨there, kept⟩, by simp [each], fun truth => ⟨?_, ?_⟩⟩
          · simp [AllHold, said truth, (agree truth).1]
          · simp [AnyHolds, said truth, (agree truth).2]
termination_by structural conditions => conditions

end

/-- Conditions in two lists are converted one list after the other. -/
theorem convertAll_append (payloadPrefix : Value) (first second : List Condition) :
    convertAll payloadPrefix (first ++ second) = do
      let results ← convertAll payloadPrefix first
      let results' ← convertAll payloadPrefix second
      return results ++ results' := by
  induction first with
  | nil => simp [convertAll]
  | cons condition rest ih => simp [convertAll, ih]

/-- What the selection of types asks for. -/
def TypesHold (truth : Clause → Prop) (query : Query) : Prop :=
  match query.types.names with
  | [] => True
  | [name] => truth (.matching "_type" (.value (.text name)))
  | names => truth (.matching "_type" (.anyOf (.texts names)))

/-- The clauses about types say what the selection asks for. -/
theorem typeClause_says (truth : Clause → Prop) (query : Query) :
    (∀ clause ∈ typeClause query, clause.Holds truth) ↔ TypesHold truth query := by
  -- The cases are those of the number of types: none, one, or several.
  unfold typeClause TypesHold
  rcases query.types.names with _ | ⟨name, _ | ⟨second, more⟩⟩ <;> simp [Clause.Holds]

/-- What is asked of drafts: where they are left out, the flag that marks them must not be set. -/
def DraftsLeftOut (truth : Clause → Prop) (configuration : Configuration) (query : Query) : Prop :=
  configuration.settings.excludesDrafts query = true →
    ∃ key, textKey? configuration.draftField = some key ∧
      ¬ truth (.matching key (.value (.bool true)))

/-- The clause about drafts says which flag must not be set. -/
theorem ensures_draftClause (configuration : Configuration) (query : Query) :
    (draftClause configuration query).Ensures fun excluded notices => notices = [] ∧
      ∀ truth, (¬ ∃ clause ∈ excluded, clause.Holds truth) ↔
        DraftsLeftOut truth configuration query := by
  -- Either drafts are included, or the one clause that excludes them is there.
  unfold draftClause DraftsLeftOut
  split
  · rename_i left
    split
    · rename_i key found
      exact .pure ⟨rfl, fun truth => by simp [left, found, Clause.Holds]⟩
    · exact .refuse
  · rename_i included
    exact .pure ⟨rfl, fun truth => by simp [included]⟩

/-- Without a notice, a filter asks for the types, the drafts and all conditions. -/
theorem ensures_filterOf (configuration : Configuration) (query : Query)
    (own : List Condition) :
    (filterOf configuration query own).Ensures fun filter notices => notices = [] → ∀ truth,
      FilterHolds truth filter ↔
        TypesHold truth query ∧ DraftsLeftOut truth configuration query ∧
          AllHold truth configuration.payloadPrefix
            (own ++ configuration.settings.globalFilter.conditionList) := by
  refine .bind (ensures_draftClause configuration query) fun excluded notices drafts =>
    .bind (ensures_convertAll configuration.payloadPrefix _) fun results notices' faithful =>
      .pure fun silent truth => ?_
  obtain ⟨-, flagged⟩ := drafts
  obtain ⟨-, quiet⟩ : notices = [] ∧ notices' = [] := by simpa using silent
  obtain ⟨kept, -, agree⟩ := faithful quiet
  rw [← typeClause_says truth query, ← flagged truth, ← (agree truth).1,
    ← holds_conjuncts kept truth]
  -- No filter is made only where there is nothing to ask for.
  split
  · rename_i nothing
    simp only [Bool.and_eq_true, List.isEmpty_iff, List.append_eq_nil_iff] at nothing
    obtain ⟨⟨noTypes, noConditions⟩, noDrafts⟩ := nothing
    simp [FilterHolds, noTypes, noConditions, noDrafts]
  · simp only [FilterHolds, Clause.Holds, Clause.allHold_iff, Clause.anyHolds_iff,
      List.forall_mem_append, ne_eq, not_true_eq_false, false_implies, true_and, and_assoc]
    exact and_congr_right fun _ => and_comm

/--
The filter of a query that is compiled without notices holds, whichever primitive clauses hold,
exactly when the type clause, the negated flag of drafts where they are left out, and all
conditions of the query and of the compiler hold.
-/
theorem scroll_filter_means_conditions {configuration : Configuration} {query : Query}
    {compiled : Scroll}
    (built : (Compiler.qdrant configuration).compileQuery query = .ok (.scroll compiled))
    (silent : compiled.notices = []) :
    ∃ own, (Compiler.qdrant configuration).conditionsOf query = .ok own ∧ ∀ truth,
      FilterHolds truth compiled.query ↔
        TypesHold truth query ∧ DraftsLeftOut truth configuration query ∧
          AllHold truth configuration.payloadPrefix
            (own ++ configuration.settings.globalFilter.conditionList) := by
  obtain ⟨own, read, converted⟩ := Compiler.conditions_of_compileQuery built
  obtain ⟨after, filtered, kept⟩ := filter_of_compile (scroll_of_output converted)
  obtain ⟨notices, extended, -, meant⟩ := (ensures_filterOf configuration query own).of_run filtered
  -- No notice at the end means that the filter gave none.
  have quiet : notices = [] := by
    rw [silent, extended] at kept
    simpa [Context.extend, Context.empty] using kept
  exact ⟨own, read, meant quiet⟩

/-- A compiler that leaves drafts out, with document fields under a prefix. -/
def prefixedConfiguration : Configuration where
  settings := { Settings.standard with includeDrafts := .bool false }
  payloadPrefix := .text "data"
  draftField := .text "_draft"

/-- A query for posts of a level that have a tag or are not by an author. -/
def leveledQuery : Query :=
  { Query.everything with
    types := .one "post"
    filter := [.leaf (.text "level") (.text "==") (.int 3),
      .node .null .null .null .null
        (.list [.leaf (.text "tags") (.text "contains") (.text "x"),
          .node .null .null .null .null .null
            (.leaf (.text "author") (.text "==") (.text "z"))]) .null] }

/-- A filter with alternatives and a negation means what its conditions mean. -/
theorem scroll_filter_means_conditions_leveled :
    ∃ compiled own,
      (Compiler.qdrant prefixedConfiguration).compileQuery leveledQuery = .ok (.scroll compiled) ∧
        compiled.notices = [] ∧
          (Compiler.qdrant prefixedConfiguration).conditionsOf leveledQuery = .ok own ∧ ∀ truth,
            FilterHolds truth compiled.query ↔
              TypesHold truth leveledQuery ∧
                DraftsLeftOut truth prefixedConfiguration leveledQuery ∧
                  AllHold truth (.text "data") (own ++ []) := by
  -- The compilation is run once, and leaves no notice.
  obtain ⟨compiled, built, silent⟩ : ∃ compiled,
      (Compiler.qdrant prefixedConfiguration).compileQuery leveledQuery = .ok (.scroll compiled) ∧
        compiled.notices = [] := ⟨_, rfl, rfl⟩
  obtain ⟨own, read, meaning⟩ := scroll_filter_means_conditions built silent
  exact ⟨compiled, own, built, silent, read, meaning⟩

end ContentQuery.Qdrant
