import ContentQuery.Proofs.Qdrant.Preservation
import ContentQuery.Proofs.Qdrant.Scroll

/-! Converting conditions is converting what is left of them without the nodes that fail. -/

namespace ContentQuery.Qdrant

open Condition

/-- Whether what is converted by itself is given and meets a test. -/
def givesAlone (test : Converted → Bool) (convert : Compile Converted) : Bool :=
  match convert .empty with
  | .ok (result, _) => test result
  | .error _ => false

/-- What is given anywhere is given alone. -/
theorem givesAlone_of_gives {convert : Compile Converted} {result : Converted}
    {notices : List Notice} (gives : convert.Gives result notices) (test : Converted → Bool) :
    givesAlone test convert = test result := by
  simp only [givesAlone, gives .empty]

/-- Whether nothing is left of a converted condition. -/
def Converted.isDropped : Converted → Bool
  | .dropped => true
  | _ => false

@[simp] theorem Converted.isDropped_eq_false {result : Converted} :
    result.isDropped = false ↔ result ≠ .dropped := by
  cases result <;> simp [isDropped]

variable (payloadPrefix : Value)

/--
A leaf fails that nothing is left of when it is converted by itself. A disjunction of nothing fails,
and so does the negation of what constrains nothing, for neither can be said.
-/
def failing : Condition → Bool
  | .leaf field comparison value =>
    givesAlone Converted.isDropped (convertLeaf payloadPrefix field comparison value)
  | .all _ => false
  | .any conditions => conditions.isEmpty
  | .not condition => givesAlone Converted.isUnconstrained (convert payloadPrefix condition)

/-- What is given stands for what is left: nothing for nothing, and the same as what is left. -/
def Stands (left : Option Condition) (result : Converted) : Prop :=
  match left with
  | none => result = .dropped
  | some condition => result ≠ .dropped ∧ (convert payloadPrefix condition).Gives result []

/-- A leaf is converted, or it fails and leaves one notice. -/
theorem ensures_leaf_pruned (field : Value) (comparison : Comparison) (value : Value) :
    (convertLeaf payloadPrefix field comparison value).Ensures fun result notices =>
      Noted (failingNodes (failing payloadPrefix) (.leaf field comparison value)) notices ∧
        Stands payloadPrefix (prune (failing payloadPrefix) (.leaf field comparison value))
          result := by
  refine (ensures_convertLeaf payloadPrefix field comparison value).gives.mono
    fun result notices ⟨gives, outcome⟩ => ?_
  -- A leaf fails by itself where nothing is left of it, and it leaves a notice just then.
  have alone : failing payloadPrefix (.leaf field comparison value) = result.isDropped :=
    givesAlone_of_gives gives Converted.isDropped
  unfold failingNodes prune ownFailure
  rw [alone]
  rcases outcome with ⟨there, rfl⟩ | ⟨rfl, notice, names, rfl⟩
  · rw [Converted.isDropped_eq_false.mpr there]
    exact ⟨.nil, there, gives⟩
  · exact ⟨.single names, rfl⟩

/-- The results that something is left of. -/
def kept (results : List Converted) : List Converted :=
  results.filter (!·.isDropped)

/-- What conversions give stands for what is left of the conditions. -/
def AllStand (conditions : List Condition) (results : List Converted) (notices : List Notice) :
    Prop :=
  Noted (failingNodesAll (failing payloadPrefix) conditions) notices ∧
    results.length = conditions.length ∧
      (kept results).length = (pruneAll (failing payloadPrefix) conditions).length ∧
        (convertAll payloadPrefix (pruneAll (failing payloadPrefix) conditions)).Gives
          (kept results) []

section Kept

variable (results : List Converted)

/-- What was dropped has no clause. -/
theorem clauses_kept :
    (kept results).filterMap Converted.clause? = results.filterMap Converted.clause? := by
  rw [kept, List.filterMap_filter]
  refine List.filterMap_congr fun result _ => ?_
  cases result <;> rfl

/-- What was dropped does not constrain nothing. -/
theorem unconstrained_kept :
    (kept results).any Converted.isUnconstrained = results.any Converted.isUnconstrained := by
  rw [kept, List.any_filter]
  refine congrArg (List.any results) (funext fun result => ?_)
  cases result <;> rfl

/-- What was dropped adds no clause to a whole filter. -/
theorem conjuncts_kept : (kept results).flatMap conjuncts = results.flatMap conjuncts := by
  -- By induction on the results: what is dropped has no clauses.
  induction results with
  | nil => rfl
  | cons result rest ih =>
    cases result <;> simp_all [kept, conjuncts, Converted.isDropped]

end Kept

/-- What is kept but is no clause constrains nothing. -/
theorem unconstrained_of_kept {results : List Converted} (some_ : kept results ≠ [])
    (clauses : results.filterMap Converted.clause? = []) :
    results.any Converted.isUnconstrained = true := by
  -- Of what is kept there is no clause, so that it can only be what constrains nothing.
  obtain ⟨result, member⟩ := List.exists_mem_of_ne_nil _ some_
  obtain ⟨inside, there⟩ := List.mem_filter.mp member
  have none_ := List.filterMap_eq_nil_iff.mp clauses result inside
  refine List.any_eq_true.mpr ⟨result, inside, ?_⟩
  cases result with
  | unconstrained => rfl
  | dropped => exact absurd there (by simp [Converted.isDropped])
  | clause clause => exact nomatch none_

/-- A way of joining results: those that were dropped count only where nothing else is there. -/
structure Joins (combine : List Converted → Converted) : Prop where
  lost : ∀ results, results ≠ [] → kept results = [] → combine results = .dropped
  kept : ∀ results, kept results ≠ [] →
    combine results ≠ .dropped ∧ combine results = combine (kept results)

/-- Joining clauses is a way of joining results. -/
theorem joins_joined (join : List Clause → Clause) : Joins (joined join) where
  lost results some_ none_ := by
    -- What is lost adds no clause and does not free the others.
    have clauses : results.filterMap Converted.clause? = [] := by
      rw [← clauses_kept, none_]
      rfl
    have constrained : results.any Converted.isUnconstrained = false := by
      rw [← unconstrained_kept, none_]
      rfl
    simp [joined, clauses, constrained, some_]
  kept results some_ := by
    have filled : (kept results).isEmpty = false := by simpa using some_
    have filled' : results.isEmpty = false := by
      rw [List.isEmpty_eq_false_iff]
      rintro rfl
      exact some_ rfl
    refine ⟨?_, ?_⟩
    · unfold joined
      split
      · rename_i clauses
        rw [unconstrained_of_kept some_ clauses, Bool.or_true, if_pos rfl]
        exact nofun
      · exact nofun
      · exact nofun
    · unfold joined
      rw [clauses_kept, unconstrained_kept, filled, filled']

theorem joins_conjunction : Joins conjunction :=
  joins_joined _

theorem joins_disjunction : Joins disjunction where
  lost results some_ none_ := by
    -- One branch that is free frees the whole; otherwise the branches are joined.
    have constrained : results.any Converted.isUnconstrained = false := by
      rw [← unconstrained_kept, none_]
      rfl
    rw [disjunction, constrained, if_neg Bool.false_ne_true]
    exact (joins_joined _).lost results some_ none_
  kept results some_ := by
    unfold disjunction
    rw [unconstrained_kept]
    split
    · exact ⟨nofun, rfl⟩
    · exact (joins_joined _).kept results some_

/-- What is joined out of conversions stands for what is left of the joined condition. -/
theorem stands_rejoined {combine : List Converted → Converted}
    {join : List Condition → Condition} (joins : Joins combine)
    (converted : ∀ left, left ≠ [] →
      convert payloadPrefix (join left) = do return combine (← convertAll payloadPrefix left))
    {conditions : List Condition} (operands : conditions ≠ []) {results : List Converted}
    {notices : List Notice} (stand : AllStand payloadPrefix conditions results notices) :
    Stands payloadPrefix (rejoined join conditions (pruneAll (failing payloadPrefix) conditions))
      (combine results) := by
  obtain ⟨-, each, counted, gives⟩ := stand
  unfold rejoined
  -- Where no operand is left, all results were dropped, and so is what they are joined to.
  cases left : pruneAll (failing payloadPrefix) conditions with
  | nil =>
    have some_ : results ≠ [] := by
      rintro rfl
      exact operands (List.length_eq_zero_iff.mp each.symm)
    rw [left] at counted
    rw [List.isEmpty_nil, Bool.true_and, List.isEmpty_eq_false_iff.mpr operands]
    exact joins.lost results some_ (List.length_eq_zero_iff.mp counted)
  | cons condition rest =>
    rw [left] at counted gives
    -- Where some are left, what was dropped changes nothing about the others.
    have some_ : kept results ≠ [] := by
      intro none_
      rw [none_] at counted
      exact nomatch counted
    obtain ⟨there, same⟩ := joins.kept results some_
    refine ⟨there, ?_⟩
    rw [converted _ (List.cons_ne_nil _ _), same]
    exact gives.map combine

/-- What a negation gives stands for what is left of it, and it fails where nothing constrains. -/
theorem ensures_negation_pruned {condition : Condition} {result : Converted}
    {notices : List Notice} (given : (convert payloadPrefix condition).Gives result notices)
    (noted : Noted (failingNodes (failing payloadPrefix) condition) notices)
    (stand : Stands payloadPrefix (prune (failing payloadPrefix) condition) result) :
    (negation result).Ensures fun negated notices' =>
      Noted (failingNodes (failing payloadPrefix) (.not condition)) (notices ++ notices') ∧
        Stands payloadPrefix (prune (failing payloadPrefix) (.not condition)) negated := by
  have alone : failing payloadPrefix (.not condition) = result.isUnconstrained :=
    givesAlone_of_gives given Converted.isUnconstrained
  unfold failingNodes prune ownFailure
  rw [alone]
  cases result with
  | unconstrained =>
    -- The negation fails here, behind whatever has failed inside it.
    refine Or.inr ⟨_, _, (Compile.gives_degrade _ _ _ _).bind (Compile.gives_pure _), ?_⟩
    exact ⟨noted.append (.single ⟨rfl, rfl⟩), rfl⟩
  -- Of a negation as much is left as of what it negates.
  | dropped =>
    refine .pure ⟨noted.append .nil, ?_⟩
    cases left : prune (failing payloadPrefix) condition with
    | none => rfl
    | some kept =>
      rw [left] at stand
      exact absurd rfl stand.1
  | clause clause =>
    refine .pure ⟨noted.append .nil, ?_⟩
    cases left : prune (failing payloadPrefix) condition with
    | none =>
      rw [left] at stand
      cases stand
    | some kept =>
      rw [left] at stand
      exact ⟨by simp, stand.2.bind (Compile.gives_pure _)⟩

mutual

/-- Converting a condition is converting what is left of it, with a notice for each failing node. -/
theorem ensures_pruned : (condition : Condition) →
    (convert payloadPrefix condition).Ensures fun result notices =>
      Noted (failingNodes (failing payloadPrefix) condition) notices ∧
        Stands payloadPrefix (prune (failing payloadPrefix) condition) result
  -- By induction on the condition. An empty disjunction fails by itself, and so may a negation;
  -- what else fails has failed below.
  | .leaf field comparison value => ensures_leaf_pruned payloadPrefix field comparison value
  | .all [] => .pure ⟨.nil, nofun, Compile.gives_pure _⟩
  | .all (first :: rest) =>
    .bind (ensures_allPruned (first :: rest)) fun results notices stand => .pure (by
      rw [List.append_nil]
      refine ⟨?_, stands_rejoined payloadPrefix joins_conjunction (fun _ _ => rfl)
        (List.cons_ne_nil _ _) stand⟩
      simpa [failingNodes, ownFailure, failing] using stand.1)
  | .any [] => by
    refine Or.inr ⟨_, _, (Compile.gives_degrade _ _ _ _).bind (Compile.gives_pure _), ?_⟩
    exact ⟨.single ⟨rfl, rfl⟩, rfl⟩
  | .any (first :: rest) =>
    .bind (ensures_allPruned (first :: rest)) fun results notices stand => .pure (by
      rw [List.append_nil]
      refine ⟨?_, stands_rejoined payloadPrefix joins_disjunction ?_
        (List.cons_ne_nil _ _) stand⟩
      · simpa [failingNodes, ownFailure, failing] using stand.1
      · rintro (_ | _) some_
        · exact absurd rfl some_
        · rfl)
  | .not condition =>
    .bind (ensures_pruned condition).gives fun _ _ ⟨gives, noted, stand⟩ =>
      ensures_negation_pruned payloadPrefix gives noted stand
termination_by structural condition => condition

/-- Converting conditions is converting what is left of them. -/
theorem ensures_allPruned : (conditions : List Condition) →
    (convertAll payloadPrefix conditions).Ensures (AllStand payloadPrefix conditions)
  | [] => .pure ⟨.nil, rfl, rfl, Compile.gives_pure []⟩
  | condition :: rest =>
    .bind (ensures_pruned condition) fun result notices ⟨noted, stand⟩ =>
      .bind (ensures_allPruned rest) fun results notices' ⟨noted', each, counted, gives⟩ =>
        .pure (by
          rw [List.append_nil]
          refine ⟨noted.append noted', by simp [each], ?_⟩
          unfold pruneAll
          -- A condition of which nothing is left has no result among those that are kept.
          cases left : prune (failing payloadPrefix) condition with
          | none =>
            rw [left] at stand
            cases stand
            exact ⟨counted, gives⟩
          | some condition' =>
            rw [left] at stand
            obtain ⟨there, gives'⟩ := stand
            have here : kept (result :: results) = result :: kept results := by
              simp [kept, there]
            rw [here]
            exact ⟨by simpa using counted, gives'.bind (gives.map _)⟩)
termination_by structural conditions => conditions

end

/-- A configuration whose global filter has no failing nodes. -/
def Configuration.pruned (configuration : Configuration) : Configuration :=
  { configuration with
    settings := configuration.settings.pruned (failing configuration.payloadPrefix) }

/-- The filter of a query is that of what is left of all conditions. -/
theorem ensures_filterOf_pruned (configuration : Configuration) (query : Query)
    (own : List Condition) :
    (filterOf configuration query own).Ensures fun filter notices =>
      Noted (failingNodesAll (failing configuration.payloadPrefix)
        (own ++ configuration.settings.globalFilter.conditionList)) notices ∧
        (filterOf configuration.pruned query
          (pruneAll (failing configuration.payloadPrefix) own)).Gives filter [] := by
  have excluding : (draftClause configuration query).Ensures fun _ notices => notices = [] :=
    (ensures_draftClause configuration query).mono fun _ _ ⟨silent, _⟩ => silent
  refine .bind excluding.gives fun excluded _ ⟨drafts, silent⟩ =>
    .bind (ensures_allPruned configuration.payloadPrefix _) fun results notices stand => .pure ?_
  -- The query's own conditions and the global ones are converted in one list.
  subst silent
  obtain ⟨noted, -, -, gives⟩ := stand
  rw [List.nil_append, List.append_nil]
  refine ⟨noted, ?_⟩
  rw [pruneAll_append, ← GlobalFilter.conditionList_pruned] at gives
  rw [← conjuncts_kept]
  exact drafts.bind (gives.map _)

/-- A query compiles to what it compiles to with what is left of all conditions. -/
theorem compile_pruned {configuration : Configuration} {query : Query} {own : List Condition}
    {compiled : Scroll} (lenient : configuration.settings.strict.isTruthy = false)
    (ran : compile configuration query own = .ok compiled) :
    ∃ lost others, (filterOf configuration query own).noticesOf = lost ∧
      compiled.notices = lost ++ others ∧
        Noted (failingNodesAll (failing configuration.payloadPrefix)
          (own ++ configuration.settings.globalFilter.conditionList)) lost ∧
          (filterOf configuration.pruned query
            (pruneAll (failing configuration.payloadPrefix) own)).noticesOf = [] ∧
            compile configuration.pruned query
              (pruneAll (failing configuration.payloadPrefix) own) =
                .ok { compiled with notices := others } := by
  obtain ⟨ran, writable⟩ := run_of_compile ran
  rw [convertQuery_eq] at ran
  obtain ⟨last, gave, -⟩ := Compiled.ok_of_run ran
  obtain ⟨filter, after, converted, -⟩ := Compile.ok_of_bind gave
  obtain ⟨lost, rfl, -, noted, left⟩ :=
    (ensures_filterOf_pruned configuration query own).of_run converted
  have lenient' : configuration.pruned.settings.strict.isTruthy = false := lenient
  -- The parts behind the filter do not look at the notices about it, nor at global conditions.
  obtain ⟨others, listed, ran'⟩ := Compiled.run_silenced ran
    (fun filter => (steady_finish configuration query filter).mono fun _ _ => trivial) lenient'
      converted (left .empty)
  refine ⟨lost, others, ?_, listed, noted, ?_, ?_⟩
  · rw [Compile.noticesOf, converted]
    rfl
  · rw [Compile.noticesOf, left .empty]
    rfl
  · -- The filter is the same, and so it can be written as before.
    refine compile_of_run ?_ writable
    rw [convertQuery_eq]
    exact ran'

end ContentQuery.Qdrant
