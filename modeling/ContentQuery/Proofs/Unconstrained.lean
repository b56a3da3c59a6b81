import ContentQuery.Proofs.Contentful.Merging
import ContentQuery.Proofs.FilterReading
import ContentQuery.Proofs.Groq.Preservation

/-! Conjunctions that constrain nothing, which every target tells in a way of its own. -/

namespace ContentQuery

namespace Condition

/-- A node has its conjuncts exactly when it has the shape of a conjunction. -/
theorem isNull_all_of_shapes {node : Node} {shape : Shape} (alone : node.shapes = [shape]) :
    node.all.isNull = false ↔ shape = .all := by
  have listed : Shape.all ∈ node.shapes ↔ node.all.isNull = false := by
    simp [Node.shapes]
  rw [← listed, alone, List.mem_singleton, eq_comm]

mutual

/-- A node that is read constrains nothing exactly when its condition does. -/
theorem alwaysTrue_of_read {limit : DepthLimit} : (node : Value) → {depth : Nat} →
    {position : Position} → {condition : Condition} →
    read limit depth position node = .ok condition →
    node.alwaysTrue = .ok condition.alwaysTrue
  | .node field relation value conjuncts disjuncts negated, depth, position, condition, ran => by
    obtain ⟨_, -, ran⟩ := ok_of_bind ran
    obtain ⟨shape, shaped, ran⟩ := ok_of_bind ran
    have only := isNull_all_of_shapes (Node.shapeAt_ok.mp shaped).1
    unfold Value.alwaysTrue
    cases shape with
    | all =>
      obtain ⟨conditions, children, ran⟩ := ok_of_bind ran
      cases ran
      -- A conjunction is judged by its children, on both sides.
      rw [only.mpr rfl]
      exact childrenAlwaysTrue_of_read conjuncts children
    -- Nodes of other shapes have no conjuncts, and constrain something.
    | leaf =>
      cases ran
      rw [Bool.eq_true_of_not_eq_false (mt only.mp nofun)]
      rfl
    | any =>
      obtain ⟨conditions, -, ran⟩ := ok_of_bind ran
      cases ran
      rw [Bool.eq_true_of_not_eq_false (mt only.mp nofun)]
      rfl
    | not =>
      obtain ⟨inner, -, ran⟩ := ok_of_bind ran
      cases ran
      rw [Bool.eq_true_of_not_eq_false (mt only.mp nofun)]
      rfl
  | .null, _, _, _, ran | .bool _, _, _, _, ran | .int _, _, _, _, ran | .float _, _, _, _, ran
  | .text _, _, _, _, ran | .bytes _, _, _, _, ran | .uuid _, _, _, _, ran
  | .moment _, _, _, _, ran | .date _, _, _, _, ran | .time _, _, _, _, ran
  | .list _, _, _, _, ran | .tuple _, _, _, _, ran | .set _ _, _, _, _, ran
  | .map _, _, _, _, ran | .operator _, _, _, _, ran | .member _, _, _, _, ran
  | .foreign, _, _, _, ran | .sortKey _, _, _, _, ran | .projection _, _, _, _, ran => by
    obtain ⟨_, -, refused⟩ := ok_of_bind ran
    exact nomatch refused
termination_by structural node => node

/-- Children that are read constrain nothing exactly when their conditions do. -/
theorem childrenAlwaysTrue_of_read {limit : DepthLimit} : (children : Value) → {depth : Nat} →
    {position : Position} → {step : Nat → Step} → {conditions : List Condition} →
    readChildren limit depth position step children = .ok conditions →
    children.childrenAlwaysTrue = .ok (allAlwaysTrue conditions)
  -- Only a list or a tuple holds children.
  | .list items, _, _, _, _, ran => everyAlwaysTrue_of_read items ran
  | .tuple items, _, _, _, _, ran => everyAlwaysTrue_of_read items ran
  | .node _ _ _ _ _ _, _, _, _, _, ran
  | .null, _, _, _, _, ran | .bool _, _, _, _, _, ran | .int _, _, _, _, _, ran
  | .float _, _, _, _, _, ran | .text _, _, _, _, _, ran | .bytes _, _, _, _, _, ran
  | .uuid _, _, _, _, _, ran | .moment _, _, _, _, _, ran | .date _, _, _, _, _, ran
  | .time _, _, _, _, _, ran | .set _ _, _, _, _, _, ran | .map _, _, _, _, _, ran
  | .operator _, _, _, _, _, ran | .member _, _, _, _, _, ran | .foreign, _, _, _, _, ran
  | .sortKey _, _, _, _, _, ran | .projection _, _, _, _, _, ran => nomatch ran
termination_by structural children => children

/-- Nodes in a row that are read constrain nothing exactly when their conditions do. -/
theorem everyAlwaysTrue_of_read {limit : DepthLimit} : (items : List Value) → {depth : Nat} →
    {position : Position} → {step : Nat → Step} → {index : Nat} →
    {conditions : List Condition} →
    readItems limit depth position step index items = .ok conditions →
    Value.everyAlwaysTrue items = .ok (allAlwaysTrue conditions)
  | [], _, _, _, _, _, ran => by
    cases ran
    rfl
  | item :: rest, _, _, _, _, _, ran => by
    obtain ⟨condition, first, ran⟩ := ok_of_bind ran
    obtain ⟨conditions, others, ran⟩ := ok_of_bind ran
    cases ran
    unfold Value.everyAlwaysTrue allAlwaysTrue
    rw [alwaysTrue_of_read item first, everyAlwaysTrue_of_read rest others]
    -- The search ends at the first node that constrains something.
    cases condition.alwaysTrue <;> rfl
termination_by structural items => items

end

end Condition

/-- What is dropped with a notice leaves this one notice. -/
theorem Compile.gives_dropped {α : Type} {reason : Reason} {message : String}
    {field operator : Value} {result : α} :
    ∃ notice,
      Compile.Gives (do Compile.degrade reason message field operator; return result) result
        [notice] ∧ notice.reason = reason :=
  ⟨_, (Compile.gives_degrade _ _ _ _).bind (Compile.gives_pure _), rfl⟩

namespace Groq

/-- The conjunction of constants is the constant, also where there are none. -/
theorem conjunction_always (count : Nat) :
    conjunction count (List.replicate count .always) = some .always := by
  cases count with
  | zero => rfl
  | succ count => simp [conjunction, Expression.isAlways]

mutual

/-- What constrains nothing is converted to the constant. -/
theorem gives_always : (condition : Condition) → condition.alwaysTrue = true → (slot : Nat) →
    (convert condition).Gives slot (some .always) [] []
  -- Only a conjunction can always be true, and then it writes the constant.
  | .all conditions, free, slot => by
    have whole := (gives_allAlways conditions free slot).map (conjunction conditions.length)
    rwa [conjunction_always] at whole
  | .leaf _ _ _, free, _ | .any _, free, _ | .not _, free, _ => nomatch free
termination_by structural condition => condition

/-- Conditions that constrain nothing are converted to as many constants. -/
theorem gives_allAlways : (conditions : List Condition) →
    Condition.allAlwaysTrue conditions = true → (slot : Nat) →
    (convertAll conditions).Gives slot (List.replicate conditions.length .always) [] []
  -- By induction on the conditions, none of which binds anything.
  | [], _, slot => Convert.gives_pure [] slot
  | condition :: rest, free, slot => by
    obtain ⟨first, others⟩ := Bool.and_eq_true_iff.mp free
    exact (gives_always condition first slot).bind
      ((gives_allAlways rest others slot).map (Expression.always :: ·))
termination_by structural conditions => conditions

end

/-- Among conditions one of which constrains nothing, the constant is one of the results. -/
theorem ensures_always_mem {condition : Condition} (free : condition.alwaysTrue = true)
    {conditions : List Condition} (member : condition ∈ conditions) (slot : Nat) :
    (convertAll conditions).Ensures slot fun parts _ _ => .always ∈ parts := by
  induction conditions generalizing slot with
  | nil => exact nomatch member
  | cons first rest ih =>
    rcases List.mem_cons.mp member with rfl | behind
    · have constant : (convert condition).Ensures slot fun result _ _ => result = some .always :=
        ⟨_, _, _, gives_always condition free slot, rfl⟩
      -- What follows the condition may be dropped or have literals, but it is not refused.
      refine .bind constant fun result _ _ same =>
        .bind (ensures_convertAll rest _) fun parts _ _ _ => .pure ?_
      rw [same]
      exact List.mem_cons_self
    · exact .bind (ensures_convert first slot) fun result _ _ _ =>
        .bind (ih behind _) fun parts _ _ there => .pure (List.mem_append_right _ there)

/-- An alternative that constrains nothing frees the whole disjunction. -/
theorem ensures_any_always {condition : Condition} (free : condition.alwaysTrue = true)
    {branches : List Condition} (member : condition ∈ branches) (slot : Nat) :
    (convert (.any branches)).Ensures slot fun result _ _ => result = some .always := by
  -- The constant is looked for among all results, whatever the others are.
  refine .bind (ensures_always_mem free member slot) fun parts _ _ there => .pure ?_
  have some_ : (branches.length == 0) = false := by
    cases branches with
    | nil => exact nomatch member
    | cons first rest => rfl
  have constant : parts.any Expression.isAlways = true := List.any_eq_true.mpr ⟨_, there, rfl⟩
  simp [disjunction, some_, constant]

end Groq

namespace Qdrant

/-- The conjunction of what constrains nothing constrains nothing, also where there is nothing. -/
theorem conjunction_unconstrained (count : Nat) :
    conjunction (List.replicate count .unconstrained) = .unconstrained := by
  -- None of the parts has a clause, and there is one that does not constrain or there is no part at
  -- all.
  cases count with
  | zero => rfl
  | succ count =>
    have none_ : (List.replicate (count + 1) Converted.unconstrained).filterMap
        Converted.clause? = [] := List.filterMap_replicate_of_none rfl
    simp [conjunction, joined, none_, Converted.isUnconstrained]

mutual

/-- What constrains nothing is converted to no constraint. -/
theorem gives_unconstrained (payloadPrefix : Value) : (condition : Condition) →
    condition.alwaysTrue = true → (convert payloadPrefix condition).Gives .unconstrained []
  -- Only a conjunction can always be true, and then none of its parts constrains.
  | .all conditions, free => by
    have whole := (gives_allUnconstrained payloadPrefix conditions free).map conjunction
    rwa [conjunction_unconstrained] at whole
  | .leaf _ _ _, free | .any _, free | .not _, free => nomatch free
termination_by structural condition => condition

/-- Conditions that constrain nothing are converted to no constraint one by one. -/
theorem gives_allUnconstrained (payloadPrefix : Value) : (conditions : List Condition) →
    Condition.allAlwaysTrue conditions = true →
    (convertAll payloadPrefix conditions).Gives
      (List.replicate conditions.length .unconstrained) []
  -- By induction on the conditions, none of which leaves a notice.
  | [], _ => Compile.gives_pure []
  | condition :: rest, free => by
    obtain ⟨first, others⟩ := Bool.and_eq_true_iff.mp free
    exact (gives_unconstrained payloadPrefix condition first).bind
      ((gives_allUnconstrained payloadPrefix rest others).map (Converted.unconstrained :: ·))
termination_by structural conditions => conditions

end

/-- Conditions none of which is refused are converted one by one. -/
theorem gives_convertAll {payloadPrefix : Value} {conditions : List Condition}
    (each : ∀ condition ∈ conditions,
      ∃ result notices, (convert payloadPrefix condition).Gives result notices) :
    ∃ results notices, (convertAll payloadPrefix conditions).Gives results notices ∧
      ∀ condition ∈ conditions, ∃ result ∈ results, ∃ notices,
        (convert payloadPrefix condition).Gives result notices := by
  -- By induction on the conditions: each is converted wherever it stands.
  induction conditions with
  | nil => exact ⟨[], [], Compile.gives_pure [], List.forall_mem_nil _⟩
  | cons first rest ih =>
    obtain ⟨⟨result, notices, here⟩, others⟩ := List.forall_mem_cons.mp each
    obtain ⟨results, notices', behind, found⟩ := ih others
    refine ⟨result :: results, notices ++ notices', here.bind (behind.map (result :: ·)), ?_⟩
    refine List.forall_mem_cons.mpr ⟨⟨result, List.mem_cons_self, notices, here⟩, ?_⟩
    intro condition member
    obtain ⟨other, inside, gives⟩ := found condition member
    exact ⟨other, List.mem_cons_of_mem _ inside, gives⟩

/-- An alternative that constrains nothing frees the whole disjunction. -/
theorem gives_any_unconstrained {payloadPrefix : Value} {condition : Condition}
    (free : condition.alwaysTrue = true) {branches : List Condition}
    (member : condition ∈ branches)
    (each : ∀ branch ∈ branches,
      ∃ result notices, (convert payloadPrefix branch).Gives result notices) :
    ∃ notices, (convert payloadPrefix (.any branches)).Gives .unconstrained notices := by
  obtain ⟨results, notices, gives, found⟩ := gives_convertAll each
  obtain ⟨result, there, notices', given⟩ := found condition member
  -- The condition that constrains nothing has no other result.
  obtain ⟨rfl, -⟩ := given.unique (gives_unconstrained payloadPrefix condition free)
  have some_ : branches.isEmpty = false := by
    cases branches with
    | nil => exact nomatch member
    | cons first rest => rfl
  have constant : results.any Converted.isUnconstrained = true :=
    List.any_eq_true.mpr ⟨_, there, rfl⟩
  refine ⟨notices, ?_⟩
  have whole := gives.map disjunction
  unfold convert
  rw [if_neg (by simp [some_])]
  simpa [disjunction, constant] using whole

/-- The negation of what constrains nothing is dropped with one notice. -/
theorem gives_not_unconstrained {payloadPrefix : Value} {condition : Condition}
    (free : condition.alwaysTrue = true) :
    ∃ notice, (convert payloadPrefix (.not condition)).Gives .dropped [notice] ∧
      notice.reason = .matchNothing := by
  -- The negation of what does not constrain would match nothing, and is dropped.
  obtain ⟨notice, dropped, reason⟩ : ∃ notice,
      (negation .unconstrained).Gives .dropped [notice] ∧ notice.reason = .matchNothing :=
    Compile.gives_dropped
  exact ⟨notice, (gives_unconstrained payloadPrefix condition free).bind dropped, reason⟩

end Qdrant

namespace Contentful

mutual

/-- What constrains nothing sets nothing. -/
theorem gives_nothing : (condition : Condition) → condition.alwaysTrue = true →
    (convert condition).Gives .empty []
  | .all conditions, free => gives_unchanged .empty conditions free
  | .leaf _ _ _, free | .any _, free | .not _, free => nomatch free
termination_by structural condition => condition

/-- Conditions that constrain nothing leave the map alone that they are merged into. -/
theorem gives_unchanged (map : FilterMap) : (conditions : List Condition) →
    Condition.allAlwaysTrue conditions = true → (convertInto map conditions).Gives map []
  | [], _ => Compile.gives_pure map
  | condition :: rest, free => by
    obtain ⟨first, others⟩ := Bool.and_eq_true_iff.mp free
    -- Nothing is merged for the first condition, and so nothing collides.
    have merged : (merge map .empty).Gives map [] := Compile.gives_pure map
    exact (gives_nothing condition first).bind (merged.bind (gives_unchanged map rest others))
termination_by structural conditions => conditions

end

/-- An alternative that constrains nothing frees the whole disjunction. -/
theorem gives_any_nothing {condition : Condition} (free : condition.alwaysTrue = true)
    {branches : List Condition} (member : condition ∈ branches) :
    (convert (.any branches)).Gives .empty [] := by
  -- It is looked for before any branch is converted, so that no notice is left.
  have found : branches.any Condition.alwaysTrue = true :=
    List.any_eq_true.mpr ⟨condition, member, free⟩
  cases branches with
  | nil => exact nomatch member
  | cons first rest =>
    unfold convert
    rw [if_pos found]
    exact Compile.gives_pure _

/-- The negation of what constrains nothing is dropped with one notice. -/
theorem gives_not_nothing {condition : Condition} (free : condition.alwaysTrue = true) :
    ∃ notice, (convert (.not condition)).Gives .empty [notice] ∧ notice.reason = .matchNothing := by
  show ∃ notice, (convertNegation condition).Gives _ [notice] ∧ _
  -- What is negated is not converted here: it is told by its shape.
  unfold convertNegation
  rw [if_pos free]
  exact Compile.gives_dropped

end Contentful

namespace Condition

/--
A node that is read and constrains nothing is the constant, no constraint or no parameter, with no
notice and no literal. A disjunction with such a node is the same, whatever else it offers, as long
as nothing in it is refused. A negation of such a node is the other constant, or is dropped with one
notice where a target has no such constant.
-/
theorem constrains_nothing_on_every_target {limit : DepthLimit} {depth : Nat}
    {position : Position} {node : Value} {condition : Condition}
    (read : Condition.read limit depth position node = .ok condition)
    (free : node.alwaysTrue = .ok true) (payloadPrefix : Value) :
    (∀ slot, (Groq.convert condition).Gives slot (some .always) [] []) ∧
      (Qdrant.convert payloadPrefix condition).Gives .unconstrained [] ∧
      (Contentful.convert condition).Gives .empty [] ∧
      (∀ branches, condition ∈ branches →
        (∀ slot, (Groq.convert (.any branches)).Ensures slot
          fun result _ _ => result = some .always) ∧
        ((∀ branch ∈ branches,
            ∃ result notices, (Qdrant.convert payloadPrefix branch).Gives result notices) →
          ∃ notices,
            (Qdrant.convert payloadPrefix (.any branches)).Gives .unconstrained notices) ∧
        (Contentful.convert (.any branches)).Gives .empty []) ∧
      (∀ slot, (Groq.convert (.not condition)).Gives slot (some .never) [] []) ∧
      (∃ notice, (Qdrant.convert payloadPrefix (.not condition)).Gives .dropped [notice] ∧
        notice.reason = .matchNothing) ∧
      (∃ notice, (Contentful.convert (.not condition)).Gives .empty [notice] ∧
        notice.reason = .matchNothing) ∧
      Groq.Expression.always.text = "true" ∧ Groq.Expression.never.text = "false" := by
  -- The node was read into a condition that is always true, and each target treats that as no
  -- constraint.
  have free : condition.alwaysTrue = true :=
    Except.ok.inj ((alwaysTrue_of_read node read).symm.trans free)
  refine ⟨Groq.gives_always condition free, Qdrant.gives_unconstrained payloadPrefix condition free,
    Contentful.gives_nothing condition free, fun branches member => ⟨?_, ?_, ?_⟩, ?_,
    Qdrant.gives_not_unconstrained free, Contentful.gives_not_nothing free, rfl, rfl⟩
  · exact Groq.ensures_any_always free member
  · exact Qdrant.gives_any_unconstrained free member
  · exact Contentful.gives_any_nothing free member
  · exact fun slot => (Groq.gives_always condition free slot).map Groq.negation

/-- A conjunction of empty conjunctions frees a disjunction with an alternative that is dropped. -/
theorem constrains_nothing_on_every_target_nested :
    ∃ condition notices,
      Condition.read (.levels 3) 1 (.top "filter")
          (.node .null .null .null
            (.list [.node .null .null .null (.list []) .null .null]) .null .null) =
          .ok condition ∧
        (Qdrant.convert .null
          (.any [.leaf (.text "title") (.known .startsWith) (.text "a"), condition])).Gives
            .unconstrained notices := by
  -- The other branch is dropped, which does not keep the disjunction from being free.
  have read : Condition.read (.levels 3) 1 (.top "filter")
      (.node .null .null .null
        (.list [.node .null .null .null (.list []) .null .null]) .null .null) =
      .ok (.all [.all []]) := rfl
  obtain ⟨-, unconstrained, -, disjunction, -⟩ :=
    constrains_nothing_on_every_target read rfl .null
  have dropped : ∃ result notices,
      (Qdrant.convert .null (.leaf (.text "title") (.known .startsWith) (.text "a"))).Gives
        result notices :=
    ⟨.dropped, _, (Compile.gives_degrade _ _ _ _).bind (Compile.gives_pure _)⟩
  have each : ∀ branch ∈ [.leaf (.text "title") (.known .startsWith) (.text "a"),
      .all [.all []]], ∃ result notices, (Qdrant.convert .null branch).Gives result notices := by
    refine List.forall_mem_cons.mpr ⟨dropped, List.forall_mem_singleton.mpr ?_⟩
    exact ⟨_, _, unconstrained⟩
  obtain ⟨notices, gives⟩ := (disjunction _ (List.mem_cons_of_mem _ List.mem_cons_self)).2.1 each
  exact ⟨_, notices, read, gives⟩

end Condition

end ContentQuery
