import ContentQuery.Proofs.Groq.Leaf
import ContentQuery.Proofs.Groq.Statement

/-! Converting conditions is converting what is left of them without the leaves that fail. -/

namespace ContentQuery.Groq

open Condition

/-- A leaf fails that nothing is left of when it is converted by itself; other nodes never fail. -/
def failing : Condition → Bool
  | .leaf field comparison value => (convertLeaf field comparison value .empty).1.isNone
  | _ => false

/-- What is given stands for what is left: nothing for nothing, and the same as what is left. -/
def Stands (left : Option Condition) (slot : Nat) (result : Option Expression)
    (literals : List Value) : Prop :=
  match left with
  | none => result = none ∧ literals = []
  | some condition => result.isSome ∧ (convert condition).Gives slot result literals []

/-- A leaf is converted, or it fails and leaves one notice. -/
theorem ensures_leaf_pruned (field : Value) (comparison : Comparison) (value : Value)
    (slot : Nat) :
    (convertLeaf field comparison value).Ensures slot fun result literals notices =>
      Noted (failingNodes failing (.leaf field comparison value)) notices ∧
        Stands (prune failing (.leaf field comparison value)) slot result literals := by
  -- A leaf is pruned when nothing is bound for it, which is when it leaves a notice.
  have outcome := convertsLeaf field comparison value
  unfold failingNodes prune ownFailure failing
  cases bound : boundOf? field comparison value with
  | none =>
    rw [bound] at outcome
    obtain ⟨notice, names, gives⟩ := outcome
    have alone : (convertLeaf field comparison value .empty).1.isNone = true := by
      rw [gives 0 .empty rfl]
      rfl
    rw [if_pos alone, if_pos alone]
    exact ⟨_, _, _, gives slot, .single names, rfl, rfl⟩
  | some literals =>
    rw [bound] at outcome
    have alone : ¬ (convertLeaf field comparison value .empty).1.isNone = true := by
      rw [outcome 0 .empty rfl]
      exact Bool.false_ne_true
    rw [if_neg alone, if_neg alone]
    exact ⟨_, _, _, outcome slot, .nil, rfl, outcome slot⟩

/-- What conversions give stands for what is left of the conditions. -/
def AllStand (conditions : List Condition) (slot : Nat) (results : List Expression)
    (literals : List Value) (notices : List Notice) : Prop :=
  Noted (failingNodesAll failing conditions) notices ∧
    results.length = (pruneAll failing conditions).length ∧
      (convertAll (pruneAll failing conditions)).Gives slot results literals []

/-- What is given for a negation stands for what is left of it. -/
theorem Stands.not {left : Option Condition} {slot : Nat} {result : Option Expression}
    {literals : List Value} (stand : Stands left slot result literals) :
    Stands (left.map .not) slot (negation result) literals := by
  -- A negation stands exactly when its operand does.
  cases left with
  | none =>
    obtain ⟨rfl, rfl⟩ := stand
    exact ⟨rfl, rfl⟩
  | some condition =>
    obtain ⟨there, gives⟩ := stand
    obtain ⟨expression, rfl⟩ := Option.isSome_iff_exists.mp there
    refine ⟨?_, gives.map negation⟩
    cases expression <;> rfl

/-- A way of joining what is left: the number of operands tells only whether there were any. -/
structure Joins (combine : Nat → List Expression → Option Expression) : Prop where
  vacant : (combine 0 []).isSome
  lost : ∀ given, given ≠ 0 → combine given [] = none
  kept : ∀ parts given, parts ≠ [] → given ≠ 0 →
    combine given parts = combine parts.length parts ∧ (combine given parts).isSome

theorem joins_conjunction : Joins conjunction where
  vacant := rfl
  lost given positive := by simp [conjunction, positive]
  kept parts given some_ positive := by
    have filled : parts.isEmpty = false := by simpa using some_
    simp only [conjunction, filled, Bool.not_false, Bool.true_or, if_true, true_and]
    split <;> rfl

theorem joins_disjunction : Joins disjunction where
  vacant := rfl
  lost given positive := by simp [disjunction, positive]
  kept parts given some_ positive := by
    have filled : parts.isEmpty = false := by simpa using some_
    have positive' : parts.length ≠ 0 := by simpa using some_
    simp only [disjunction, filled, beq_iff_eq, positive, positive', if_false, Bool.false_eq_true,
      true_and]
    split <;> rfl

/-- What is joined out of conversions stands for what is left of the joined condition. -/
theorem stands_rejoined {combine : Nat → List Expression → Option Expression}
    {join : List Condition → Condition} (joins : Joins combine)
    (converted : ∀ left, convert (join left) = do return combine left.length (← convertAll left))
    {conditions left : List Condition} {slot : Nat} {results : List Expression}
    {literals : List Value} (counted : results.length = left.length)
    (fewer : conditions = [] → left = [])
    (gives : (convertAll left).Gives slot results literals []) :
    Stands (rejoined join conditions left) slot (combine conditions.length results) literals := by
  have joined : (convert (join left)).Gives slot (combine left.length results) literals [] := by
    rw [converted]
    exact gives.map _
  unfold rejoined
  cases left with
  | nil =>
    -- Nothing is left, so that nothing was bound.
    obtain rfl : results = [] := List.length_eq_zero_iff.mp counted
    obtain ⟨-, rfl, -⟩ := gives.unique (Convert.gives_pure [] slot)
    cases conditions with
    | nil => exact ⟨joins.vacant, joined⟩
    | cons condition rest => exact ⟨joins.lost _ (by simp), rfl⟩
  | cons condition rest =>
    have some_ : results ≠ [] := by
      rintro rfl
      exact nomatch counted
    -- Something is left, so that there were operands in the first place.
    have positive : conditions.length ≠ 0 := fun none_ =>
      nomatch fewer (List.length_eq_zero_iff.mp none_)
    obtain ⟨same, there⟩ := joins.kept results conditions.length some_ positive
    rw [← counted, ← same] at joined
    exact ⟨there, joined⟩

-- By induction on the conditions: every conversion binds what the conversion of what is left binds.
mutual

/-- Converting a condition is converting what is left of it, with a notice for each failing leaf. -/
theorem ensures_pruned : (condition : Condition) → (slot : Nat) →
    (convert condition).Ensures slot fun result literals notices =>
      Noted (failingNodes failing condition) notices ∧
        Stands (prune failing condition) slot result literals
  -- By induction on the condition: a connective never fails by itself, so that it only loses what
  -- its members lose.
  | .leaf field comparison value, slot => ensures_leaf_pruned field comparison value slot
  | .all conditions, slot =>
    .bind (ensures_allPruned conditions slot) fun results literals notices stand => .pure (by
      obtain ⟨noted, counted, gives⟩ := stand
      rw [List.append_nil, List.append_nil]
      refine ⟨by simpa [failingNodes, ownFailure, failing] using noted, ?_⟩
      exact stands_rejoined joins_conjunction (fun _ => rfl) counted (by rintro rfl; rfl) gives)
  | .any conditions, slot =>
    .bind (ensures_allPruned conditions slot) fun results literals notices stand => .pure (by
      obtain ⟨noted, counted, gives⟩ := stand
      rw [List.append_nil, List.append_nil]
      refine ⟨by simpa [failingNodes, ownFailure, failing] using noted, ?_⟩
      exact stands_rejoined joins_disjunction (fun _ => rfl) counted (by rintro rfl; rfl) gives)
  | .not condition, slot =>
    .bind (ensures_pruned condition slot) fun result literals notices ⟨noted, stand⟩ => .pure (by
      rw [List.append_nil, List.append_nil]
      refine ⟨by simpa [failingNodes, ownFailure, failing] using noted, ?_⟩
      exact stand.not)
termination_by structural condition => condition

/-- Converting conditions is converting what is left of them. -/
theorem ensures_allPruned : (conditions : List Condition) → (slot : Nat) →
    (convertAll conditions).Ensures slot (AllStand conditions slot)
  -- By induction on the conditions: a member that fails takes no slot, so that those behind it bind
  -- where they would without it.
  | [], slot => .pure ⟨.nil, rfl, Convert.gives_pure [] slot⟩
  | condition :: rest, slot =>
    .bind (ensures_pruned condition slot) fun result literals notices ⟨noted, stand⟩ =>
      .bind (ensures_allPruned rest _) fun results literals' notices' ⟨noted', counted, gives⟩ =>
        .pure (by
          simp only [List.append_nil]
          refine ⟨noted.append noted', ?_⟩
          unfold pruneAll
          cases left : prune failing condition with
          | none =>
            rw [left] at stand
            obtain ⟨rfl, rfl⟩ := stand
            exact ⟨counted, gives⟩
          | some kept =>
            rw [left] at stand
            obtain ⟨there, gives'⟩ := stand
            obtain ⟨expression, rfl⟩ := Option.isSome_iff_exists.mp there
            exact ⟨by simpa using counted, gives'.bind (gives.map _)⟩)
termination_by structural conditions => conditions

end

/-- The filter of a query is that of what is left of all conditions. -/
theorem ensures_filterParts_pruned (settings : Settings) (query : Query) (own : List Condition) :
    (filterParts settings query own).Ensures 0 fun parts literals notices =>
      Noted (failingNodesAll failing (own ++ settings.globalFilter.conditionList)) notices ∧
        (filterParts (settings.pruned failing) query (pruneAll failing own)).Gives 0 parts
          literals [] := by
  -- The conditions of the settings are pruned behind the query's own; a raw text is not pruned.
  refine .bind (ensures_allPruned own 0) fun results literals notices ⟨noted, _, gives⟩ => ?_
  have everywhere (slot : Nat) : (globalClause settings).Ensures slot
      fun parts literals notices =>
        Noted (failingNodesAll failing settings.globalFilter.conditionList) notices ∧
          (globalClause (settings.pruned failing)).Gives slot parts literals [] := by
    unfold globalClause Settings.pruned
    cases settings.globalFilter with
    | raw text => exact .pure ⟨.nil, Convert.gives_pure _ slot⟩
    | conditions nodes parsed =>
      exact (ensures_allPruned parsed slot).mono fun _ _ _ ⟨noted, _, gives⟩ => ⟨noted, gives⟩
  refine .bind (everywhere _) fun results' literals' notices' ⟨noted', gives'⟩ => .pure ?_
  rw [failingNodesAll_append, List.append_nil, List.append_nil]
  exact ⟨noted.append noted', gives.bind (gives'.map _)⟩

mutual

/-- No literal in what is left of a condition is too long where none in the condition is. -/
theorem canConvert_prune (fails : Condition → Bool) : (condition : Condition) →
    canConvert condition = true → ∀ left ∈ prune fails condition, canConvert left = true
  -- By induction on the condition: pruning leaves leaves as they were, or none at all.
  | .leaf field comparison value, fits => by
    unfold prune
    split
    · exact nofun
    · rintro _ ⟨⟩
      exact fits
  | .all conditions, fits => by
    have inside := canConvertAll_prune fails conditions fits
    unfold prune rejoined
    repeat' split
    · exact nofun
    · exact nofun
    · rintro _ ⟨⟩
      exact inside
  | .any conditions, fits => by
    have inside := canConvertAll_prune fails conditions fits
    unfold prune rejoined
    repeat' split
    · exact nofun
    · exact nofun
    · rintro _ ⟨⟩
      exact inside
  | .not condition, fits => by
    have inside := canConvert_prune fails condition fits
    unfold prune
    split
    · exact nofun
    · intro left among
      obtain ⟨operand, there, rfl⟩ := Option.map_eq_some_iff.mp among
      exact inside operand there
termination_by structural condition => condition

/-- Nor is one in what is left of several conditions. -/
theorem canConvertAll_prune (fails : Condition → Bool) : (conditions : List Condition) →
    canConvertAll conditions = true → canConvertAll (pruneAll fails conditions) = true
  -- By induction on the conditions; each is left convertible, or is gone.
  | [], _ => rfl
  | condition :: rest, fits => by
    obtain ⟨first, others⟩ := Bool.and_eq_true_iff.mp fits
    have here := canConvert_prune fails condition first
    have later := canConvertAll_prune fails rest others
    unfold pruneAll
    cases left : prune fails condition with
    | none => exact later
    | some operand => exact Bool.and_eq_true_iff.mpr ⟨here operand left, later⟩
termination_by structural conditions => conditions

end

/-- A query compiles to what it compiles to with what is left of all conditions. -/
theorem compile_pruned {settings : Settings} {query : Query} {own : List Condition}
    {compiled : Compiled Statement Value} (lenient : settings.strict.isTruthy = false)
    (ran : compile settings query own = .ok compiled) :
    ∃ lost others, (filterParts settings query own).lift.noticesOf = lost ∧
      compiled.notices = lost ++ others ∧
        Noted (failingNodesAll failing (own ++ settings.globalFilter.conditionList)) lost ∧
          (filterParts (settings.pruned failing) query
            (pruneAll failing own)).lift.noticesOf = [] ∧
            compile (settings.pruned failing) query (pruneAll failing own) =
              .ok { compiled with notices := others } := by
  obtain ⟨parts, literals, lost, gives, noted, left⟩ :=
    ensures_filterParts_pruned settings query own
  have converted : (filterParts settings query own).lift .empty = .ok (parts, ⟨literals, lost⟩) :=
    congrArg Except.ok (gives .empty rfl)
  have silent : (filterParts (settings.pruned failing) query (pruneAll failing own)).lift .empty =
      .ok (parts, ⟨literals, []⟩) := congrArg Except.ok (left .empty rfl)
  obtain ⟨fits, ran⟩ := run_of_compile ran
  rw [convertQuery_eq] at ran
  -- The parts behind the filter do not look at the notices about it, nor at global conditions.
  have lenient' : (settings.pruned failing).strict.isTruthy = false := lenient
  obtain ⟨others, listed, ran'⟩ := Compiled.run_silenced ran
    (fun filter => (steady_finish settings query filter).mono fun _ _ => trivial) lenient'
      converted silent
  refine ⟨lost, others, ?_, listed, noted, ?_, ?_⟩
  · rw [Compile.noticesOf, converted]
  · rw [Compile.noticesOf, silent]
  · rw [compile_of_run, convertQuery_eq]
    · exact ran'
    · rw [show (settings.pruned failing).globalFilter.conditionList = _ from
        GlobalFilter.conditionList_pruned failing settings.globalFilter, ← pruneAll_append]
      exact canConvertAll_prune failing _ fits

end ContentQuery.Groq
