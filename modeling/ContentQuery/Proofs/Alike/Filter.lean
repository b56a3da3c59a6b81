import ContentQuery.Proofs.TwoRuns

/-! Filters that differ in the literals of their leaves only, as they are given and as read. -/

namespace ContentQuery

/-- Which literals are alike; each literal is like itself. -/
structure Likeness where
  /-- Literals of leaves with one comparison. -/
  literals : Comparison → Value → Value → Prop
  /-- Arguments of a computed field. -/
  arguments : List Value → List Value → Prop
  literals_refl : ∀ comparison value, literals comparison value value
  arguments_refl : ∀ values, arguments values values

variable (likeness : Likeness)

namespace Condition

mutual

/-- Two conditions with the same leaves, apart from literals that are alike. -/
inductive Alike : Condition → Condition → Prop
  | leaf {field : Value} {comparison : Comparison} {value value' : Value}
    (literals : likeness.literals comparison value value') :
    Alike (.leaf field comparison value) (.leaf field comparison value')
  | all {conditions conditions' : List Condition} (inside : AllAlike conditions conditions') :
    Alike (.all conditions) (.all conditions')
  | any {conditions conditions' : List Condition} (inside : AllAlike conditions conditions') :
    Alike (.any conditions) (.any conditions')
  | not {condition condition' : Condition} (inside : Alike condition condition') :
    Alike (.not condition) (.not condition')

/-- Two lists of conditions that are alike one by one. -/
inductive AllAlike : List Condition → List Condition → Prop
  | nil : AllAlike [] []
  | cons {condition condition' : Condition} {rest rest' : List Condition}
    (first : Alike condition condition') (others : AllAlike rest rest') :
    AllAlike (condition :: rest) (condition' :: rest')

end

variable {likeness}

mutual

/-- A condition is like itself where literals are. -/
theorem Alike.refl : (condition : Condition) → Alike likeness condition condition
  -- The literals stand in the leaves; the connectives are rebuilt as they are.
  | .leaf _ comparison value => .leaf (likeness.literals_refl comparison value)
  | .all conditions => .all (AllAlike.refl conditions)
  | .any conditions => .any (AllAlike.refl conditions)
  | .not condition => .not (Alike.refl condition)
termination_by structural condition => condition

/-- Conditions are like themselves where literals are. -/
theorem AllAlike.refl : (conditions : List Condition) → AllAlike likeness conditions conditions
  | [] => .nil
  | condition :: rest => .cons (Alike.refl condition) (AllAlike.refl rest)
termination_by structural conditions => conditions

end

/-- Conditions that are alike have one field. -/
theorem Alike.field_eq {condition condition' : Condition} :
    Alike likeness condition condition' → condition.field = condition'.field
  | .leaf _ | .all _ | .any _ | .not _ => rfl

/-- Lists of conditions that are alike have the same fields. -/
theorem AllAlike.fields_eq {conditions conditions' : List Condition} :
    AllAlike likeness conditions conditions' →
      conditions.map Condition.field = conditions'.map Condition.field
  | .nil => rfl
  | .cons first others => by
    rw [List.map_cons, List.map_cons, first.field_eq, others.fields_eq]

mutual

/-- Conditions that are alike both constrain nothing, or neither does. -/
theorem Alike.alwaysTrue_eq : {condition condition' : Condition} →
    Alike likeness condition condition' → condition.alwaysTrue = condition'.alwaysTrue
  -- Only a conjunction can be true without comparing, and then by its members.
  | _, _, .leaf _ => rfl
  | _, _, .all inside => inside.allAlwaysTrue_eq
  | _, _, .any _ => rfl
  | _, _, .not _ => rfl
termination_by structural _ _ alike => alike

/-- Nor do lists of conditions that are alike differ in that. -/
theorem AllAlike.allAlwaysTrue_eq : {conditions conditions' : List Condition} →
    AllAlike likeness conditions conditions' →
      allAlwaysTrue conditions = allAlwaysTrue conditions'
  | _, _, .nil => rfl
  | _, _, .cons first others => by
    rw [allAlwaysTrue, allAlwaysTrue, first.alwaysTrue_eq, others.allAlwaysTrue_eq]
termination_by structural _ _ alike => alike

end

/-- One of several conditions constrains nothing where one of those that are alike does. -/
theorem AllAlike.any_alwaysTrue_eq {conditions conditions' : List Condition} :
    AllAlike likeness conditions conditions' →
      conditions.any alwaysTrue = conditions'.any alwaysTrue
  | .nil => rfl
  | .cons first others => by
    rw [List.any_cons, List.any_cons, first.alwaysTrue_eq, others.any_alwaysTrue_eq]

/-- Lists of conditions that are alike may be followed by ones that are. -/
theorem AllAlike.append {conditions conditions' others others' : List Condition} :
    AllAlike likeness conditions conditions' → AllAlike likeness others others' →
      AllAlike likeness (conditions ++ others) (conditions' ++ others')
  | .nil, behind => behind
  | .cons first later, behind => .cons first (later.append behind)

/-- Lists of conditions that are alike are equally long. -/
theorem AllAlike.length_eq {conditions conditions' : List Condition} :
    AllAlike likeness conditions conditions' → conditions.length = conditions'.length
  | .nil => rfl
  | .cons _ others => congrArg (· + 1) others.length_eq

end Condition

namespace Node

/-- The text of a key that is one tells the key. -/
theorem eq_text_of_keyText? {key : Value} {name : String} (named : keyText? key = some name) :
    key = .text name := by
  cases key with
  | text word => exact congrArg Value.text (Option.some.inj named)
  | _ => cases named

/-- What the leaf compares with that the map of a filter node is read as. -/
def comparisonOf (entries : List (Value × Value)) : Comparison :=
  .ofValue ((Value.lookup? "operator" entries).getD .null).relationOf

mutual

/-- Two filter nodes, or maps to be read as nodes, that differ in the literals of leaves only. -/
inductive Alike : Value → Value → Prop
  | same (value : Value) : Alike value value
  | node {field relation value value' all all' any any' negated negated' : Value}
    (literals : likeness.literals (.ofValue relation) value value')
    (conjuncts : ChildrenAlike all all') (disjuncts : ChildrenAlike any any')
    (inside : Alike negated negated') :
    Alike (.node field relation value all any negated)
      (.node field relation value' all' any' negated')
  | map {entries entries' : List (Value × Value)}
    (inside : EntriesAlike (comparisonOf entries) entries entries') :
    Alike (.map entries) (.map entries')

/-- Two containers of nodes that are alike one by one. -/
inductive ChildrenAlike : Value → Value → Prop
  | same (value : Value) : ChildrenAlike value value
  | list {items items' : List Value} (inside : ItemsAlike items items') :
    ChildrenAlike (.list items) (.list items')
  | tuple {items items' : List Value} (inside : ItemsAlike items items') :
    ChildrenAlike (.tuple items) (.tuple items')

/-- Two lists of nodes that are alike one by one. -/
inductive ItemsAlike : List Value → List Value → Prop
  | nil : ItemsAlike [] []
  | cons {item item' : Value} {rest rest' : List Value} (first : Alike item item')
    (others : ItemsAlike rest rest') : ItemsAlike (item :: rest) (item' :: rest')

/-- Two entries under one key of maps that are read as nodes with a certain comparison. -/
inductive EntryAlike : Comparison → Value → Value → Value → Prop
  | same {comparison : Comparison} (key value : Value) : EntryAlike comparison key value value
  | literal {comparison : Comparison} {key value value' : Value} (named : key = .text "value")
    (literals : likeness.literals comparison value value') : EntryAlike comparison key value value'
  | children {comparison : Comparison} {key value value' : Value}
    (named : key = .text Shape.all.word ∨ key = .text Shape.any.word)
    (inside : ChildrenAlike value value') : EntryAlike comparison key value value'
  | negated {comparison : Comparison} {key value value' : Value}
    (named : key = .text Shape.not.word) (inside : Alike value value') :
    EntryAlike comparison key value value'

/-- Two maps with the same keys, whose entries are alike one by one. -/
inductive EntriesAlike : Comparison → List (Value × Value) → List (Value × Value) → Prop
  | nil {comparison : Comparison} : EntriesAlike comparison [] []
  | cons {comparison : Comparison} {key value value' : Value}
    {rest rest' : List (Value × Value)} (first : EntryAlike comparison key value value')
    (others : EntriesAlike comparison rest rest') :
    EntriesAlike comparison ((key, value) :: rest) ((key, value') :: rest')

end

variable {likeness}

section Entries

variable {comparison : Comparison}

/-- Maps that are alike have the same keys. -/
theorem EntriesAlike.keys : {entries entries' : List (Value × Value)} →
    EntriesAlike likeness comparison entries entries' → entries.map Prod.fst = entries'.map Prod.fst
  | _, _, .nil => rfl
  | _, _, .cons _ others => congrArg (_ :: ·) others.keys

/-- Maps that are alike have entries that are alike under a name, or none. -/
theorem EntriesAlike.lookup? (name : String) : {entries entries' : List (Value × Value)} →
    EntriesAlike likeness comparison entries entries' →
      (Value.lookup? name entries = none ∧ Value.lookup? name entries' = none) ∨
        ∃ value value', Value.lookup? name entries = some value ∧
          Value.lookup? name entries' = some value' ∧
            EntryAlike likeness comparison (.text name) value value'
  -- The keys are the same in both maps, so that both find the entry at the same place or neither
  -- has it.
  | _, _, .nil => Or.inl ⟨rfl, rfl⟩
  | (key, value) :: _, (_, value') :: _, .cons first others => by
    rw [Value.lookup?_cons, Value.lookup?_cons]
    by_cases named : keyText? key = some name
    · rw [if_pos named, if_pos named]
      exact Or.inr ⟨value, value', rfl, rfl, eq_text_of_keyText? named ▸ first⟩
    · rw [if_neg named, if_neg named]
      exact others.lookup? name

/-- Under a name that has neither a literal nor a child, maps that are alike have the same entry. -/
theorem EntriesAlike.lookup?_eq {entries entries' : List (Value × Value)}
    (inside : EntriesAlike likeness comparison entries entries') {name : String}
    (plain : name ∉ ["value", "and", "or", "not"]) :
    Value.lookup? name entries = Value.lookup? name entries' := by
  -- Under another key than the four that may differ the entries are the same.
  rcases inside.lookup? name with ⟨absent, absent'⟩ | ⟨value, value', found, found', both⟩
  · rw [absent, absent']
  · rw [found, found']
    cases both with
    | same => rfl
    | literal named => exact absurd (Value.text.inj named) (by rintro rfl; simp at plain)
    | children named =>
      rcases named with named | named <;> cases named <;> simp [Shape.word] at plain
    | negated named => cases named; simp [Shape.word] at plain

/-- The literals under their name are alike, where every literal is like itself. -/
theorem EntriesAlike.literals {entries entries' : List (Value × Value)}
    (inside : EntriesAlike likeness comparison entries entries') :
    likeness.literals comparison ((Value.lookup? "value" entries).getD .null)
      ((Value.lookup? "value" entries').getD .null) := by
  -- A map without a value holds no literal in either, and nothing is like nothing.
  rcases inside.lookup? "value" with ⟨absent, absent'⟩ | ⟨value, value', found, found', both⟩
  · rw [absent, absent']
    exact likeness.literals_refl comparison _
  · rw [found, found']
    cases both with
    | same => exact likeness.literals_refl comparison _
    | literal named literals => exact literals
    | children named => rcases named with named | named <;> simp [Shape.word] at named
    | negated named => simp [Shape.word] at named

end Entries

section Parts

variable {all all' any any' negated negated' : Value}

/-- What is like null is null. -/
theorem Alike.isNull_eq (inside : Alike likeness negated negated') :
    negated.isNull = negated'.isNull := by
  cases inside <;> rfl

theorem ChildrenAlike.isNull_eq (inside : ChildrenAlike likeness all all') :
    all.isNull = all'.isNull := by
  cases inside <;> rfl

theorem ChildrenAlike.isList_eq (inside : ChildrenAlike likeness all all') :
    isList all = isList all' := by
  cases inside <;> rfl

/-- The literal of a node does not matter for its shape, and neither do its children. -/
theorem shape_eq (field relation value value' : Value) (conjuncts : ChildrenAlike likeness all all')
    (disjuncts : ChildrenAlike likeness any any') (inside : Alike likeness negated negated') :
    shape ⟨field, relation, value, all, any, negated⟩ =
      shape ⟨field, relation, value', all', any', negated'⟩ := by
  -- The shapes and their faults ask what is there and what is a list, never what a literal is.
  have shapes_eq : shapes ⟨field, relation, value, all, any, negated⟩ =
      shapes ⟨field, relation, value', all', any', negated'⟩ := by
    simp only [shapes, conjuncts.isNull_eq, disjuncts.isNull_eq, inside.isNull_eq]
  have faults_eq (only : Shape) : shapeFault? ⟨field, relation, value, all, any, negated⟩ only =
      shapeFault? ⟨field, relation, value', all', any', negated'⟩ only := by
    cases only <;> simp only [shapeFault?, leafFault?, conjuncts.isList_eq, disjuncts.isList_eq]
  simp only [shape, shapes_eq, faults_eq]

end Parts

section Dictionary

variable (limit : DepthLimit)

mutual

/-- Maps that are alike are read as nodes that are alike. -/
theorem agree_ofDictionary : {value value' : Value} → Alike likeness value value' → (depth : Nat) →
    (position : Position) → ResultsAgree (Alike likeness) (ofDictionary limit depth position value)
      (ofDictionary limit depth position value')
  | _, _, .same value, depth, position => .refl .same _
  -- A node that is given as such is taken as it is, once its depth is checked.
  | _, _, .node literals conjuncts disjuncts inside, depth, position =>
    .bind (.refl (fun _ => rfl) _) fun _ _ _ => .gave (.node literals conjuncts disjuncts inside)
  | .map entries, .map entries', .map inside, depth, position => by
    have negated := agree_negatedOf inside (depth + 1) position
    have conjuncts := agree_childrenOf inside (depth + 1) position .all (Or.inl rfl)
    have disjuncts := agree_childrenOf inside (depth + 1) position .any (Or.inr rfl)
    have keys : checkKeys position entries = checkKeys position entries' := by
      simp only [checkKeys, inside.keys]
    have field := inside.lookup?_eq (show "field" ∉ _ by simp)
    have relation := inside.lookup?_eq (show "operator" ∉ _ by simp)
    unfold ofDictionary
    dsimp only
    -- Keys, field and operator are the same, so that only the children can tell the readings apart.
    rw [← keys, ← field, ← relation]
    refine .bind (.refl (fun _ => rfl) _) fun _ _ _ => .bind (.refl (fun _ => rfl) _) fun _ _ _ =>
      .bind negated fun _ _ negated => .bind conjuncts fun _ _ conjuncts =>
        .bind disjuncts fun _ _ disjuncts => ?_
    unfold shapeAt
    rw [shape_eq _ _ _ ((Value.lookup? "value" entries').getD .null) conjuncts disjuncts negated]
    exact .bind (.refl (fun _ => rfl) _) fun _ _ _ =>
      .gave (.node (inside.literals) conjuncts disjuncts negated)
termination_by structural _ _ inside => inside

/-- The negated nodes of maps that are alike are read as nodes that are alike. -/
theorem agree_negatedOf : {comparison : Comparison} → {entries entries' : List (Value × Value)} →
    EntriesAlike likeness comparison entries entries' → (depth : Nat) → (position : Position) →
      ResultsAgree (Alike likeness) (negatedOf limit depth position entries)
        (negatedOf limit depth position entries')
  -- By induction on the entries; the first that names a negation is the one read.
  | _, _, _, .nil, _, _ => .gave (.same .null)
  | _, _, _, .cons first others, depth, position => by
    have here := agree_negatedEntry first depth (position.down .negated)
    have later := agree_negatedOf others depth position
    unfold negatedOf
    split
    · rename_i named
      exact here named
    · exact later
termination_by structural _ _ _ inside => inside

/-- What is negated in one entry is read as nodes that are alike. -/
theorem agree_negatedEntry : {comparison : Comparison} → {key value value' : Value} →
    EntryAlike likeness comparison key value value' → (depth : Nat) → (position : Position) →
      keyText? key = some Shape.not.word →
        ResultsAgree (Alike likeness) (ofDictionary limit depth position value)
          (ofDictionary limit depth position value')
  | _, _, _, _, .same _ _, _, _, _ => .refl .same _
  | _, _, _, _, .negated _ inside, depth, position, _ => agree_ofDictionary inside depth position
  -- What is alike under another name does not stand under this one.
  | _, _, _, _, .literal other _, _, _, named => by
    subst other
    simp [keyText?, Shape.word] at named
  | _, _, _, _, .children other _, _, _, named => by
    rcases other with rfl | rfl <;> simp [keyText?, Shape.word] at named
termination_by structural _ _ _ _ inside => inside

/-- The children of maps that are alike are read as nodes that are alike. -/
theorem agree_childrenOf : {comparison : Comparison} → {entries entries' : List (Value × Value)} →
    EntriesAlike likeness comparison entries entries' → (depth : Nat) → (position : Position) →
      (shape : Shape) → shape = .all ∨ shape = .any →
        ResultsAgree (ChildrenAlike likeness) (childrenOf limit depth position shape entries)
          (childrenOf limit depth position shape entries')
  -- By induction on the entries; the first that names the shape is the one read.
  | _, _, _, .nil, _, _, _, _ => .gave (.same .null)
  | _, _, _, .cons first others, depth, position, shape, joins => by
    have here := agree_childrenEntry first depth position shape joins
    have later := agree_childrenOf others depth position shape joins
    unfold childrenOf
    split
    · rename_i named
      exact here named
    · exact later
termination_by structural _ _ _ inside => inside

/-- Children in one entry are read as nodes that are alike. -/
theorem agree_childrenEntry : {comparison : Comparison} → {key value value' : Value} →
    EntryAlike likeness comparison key value value' → (depth : Nat) → (position : Position) →
      (shape : Shape) → shape = .all ∨ shape = .any → keyText? key = some shape.word →
        ResultsAgree (ChildrenAlike likeness) (childrenIn limit depth position shape value)
          (childrenIn limit depth position shape value')
  -- An entry that differs by a literal or a negation is named otherwise, and is not looked at.
  | _, _, _, _, .same _ _, _, _, _, _, _ => .refl .same _
  | _, _, _, _, .children _ inside, depth, position, shape, _, _ =>
    agree_childrenIn inside depth position shape
  | _, _, _, _, .literal other _, _, _, _, joins, named => by
    subst other
    rcases joins with rfl | rfl <;> simp [keyText?, Shape.word] at named
  | _, _, _, _, .negated other _, _, _, _, joins, named => by
    subst other
    rcases joins with rfl | rfl <;> simp [keyText?, Shape.word] at named
termination_by structural _ _ _ _ inside => inside

/-- Containers of maps that are alike are read as containers of nodes that are alike. -/
theorem agree_childrenIn : {value value' : Value} → ChildrenAlike likeness value value' →
    (depth : Nat) → (position : Position) → (shape : Shape) →
      ResultsAgree (ChildrenAlike likeness) (childrenIn limit depth position shape value)
        (childrenIn limit depth position shape value')
  | _, _, .same _, _, _, _ => .refl .same _
  | _, _, .list inside, depth, position, shape | _, _, .tuple inside, depth, position, shape =>
    .bind (agree_itemsOf inside depth position shape 0) fun _ _ items => .gave (.list items)
termination_by structural _ _ inside => inside

/-- Maps in a row that are alike are read as nodes that are alike. -/
theorem agree_itemsOf : {items items' : List Value} → ItemsAlike likeness items items' →
    (depth : Nat) → (position : Position) → (shape : Shape) → (index : Nat) →
      ResultsAgree (ItemsAlike likeness) (itemsOf limit depth position shape index items)
        (itemsOf limit depth position shape index items')
  -- Item by item, each at its own index.
  | _, _, .nil, _, _, _, _ => .gave .nil
  | _, _, .cons first others, depth, position, shape, index =>
    .bind (agree_ofDictionary first depth _) fun _ _ node =>
      .bind (agree_itemsOf others depth position shape (index + 1)) fun _ _ nodes =>
        .gave (.cons node nodes)
termination_by structural _ _ inside => inside

end

/-- The node that an item of a filter is or is read as. -/
def ofItem (entry : Value × Nat) : Except Fault Value :=
  match entry.1 with
  | .map _ => ofDictionary limit 1 ((Position.top "filter").down (.item entry.2)) entry.1
  | other => .ok other

/-- Items that are alike are, or are read as, nodes that are alike. -/
theorem agree_ofItem {item item' : Value} (inside : Alike likeness item item') (index : Nat) :
    ResultsAgree (Alike likeness) (ofItem limit (item, index)) (ofItem limit (item', index)) :=
  -- The positions are the same, and a node is passed as it is.
  match inside with
  | .same _ => .refl .same _
  | .node literals conjuncts disjuncts inside =>
    .gave (.node literals conjuncts disjuncts inside)
  | .map inside => agree_ofDictionary limit (.map inside) 1 _

/-- Items in a row that are alike are, or are read as, nodes that are alike. -/
theorem agree_ofItems : {items items' : List Value} → ItemsAlike likeness items items' →
    (start : Nat) → ResultsAgree (ItemsAlike likeness) ((items.zipIdx start).mapM (ofItem limit))
      ((items'.zipIdx start).mapM (ofItem limit))
  -- Item by item, numbered from the same start.
  | _, _, .nil, _ => .gave .nil
  | _, _, .cons first others, start => by
    rw [List.zipIdx_cons, List.zipIdx_cons, List.mapM_cons, List.mapM_cons]
    exact .bind (agree_ofItem limit first start) fun _ _ node =>
      .bind (agree_ofItems others (start + 1)) fun _ _ nodes => .gave (.cons node nodes)

end Dictionary

end Node

namespace Condition

variable {likeness} (limit : DepthLimit)

mutual

/-- Nodes that are alike are read as conditions that are alike. -/
theorem agree_read : {value value' : Value} → Node.Alike likeness value value' → (depth : Nat) →
    (position : Position) → ResultsAgree (Alike likeness) (read limit depth position value)
      (read limit depth position value')
  | _, _, .same value, _, _ => .refl Alike.refl _
  -- A map that is still none of the nodes is refused.
  | _, _, .map _, depth, position => .bind (.refl (fun _ => rfl) _) fun _ _ _ => .refused
  | .node field relation value _ _ negated, .node _ _ value' _ _ _,
      .node literals conjuncts disjuncts inside, depth, position => by
    have conjunctsRead := agree_readChildren conjuncts (depth + 1) position .all
    have disjunctsRead := agree_readChildren disjuncts (depth + 1) position .any
    have insideRead := agree_read inside (depth + 1) (position.down .negated)
    unfold read Node.shapeAt
    rw [Node.shape_eq _ _ _ value' conjuncts disjuncts inside]
    refine .bind (.refl (fun _ => rfl) _) fun _ _ _ => .bind (.refl (fun _ => rfl) _) ?_
    rintro shape _ rfl
    cases shape with
    | leaf => exact .gave (.leaf literals)
    | all => exact .bind conjunctsRead fun _ _ inside => .gave (.all inside)
    | any => exact .bind disjunctsRead fun _ _ inside => .gave (.any inside)
    | not => exact .bind insideRead fun _ _ inside => .gave (.not inside)
termination_by structural _ _ inside => inside

/-- Containers of nodes that are alike are read as conditions that are alike. -/
theorem agree_readChildren : {value value' : Value} → Node.ChildrenAlike likeness value value' →
    (depth : Nat) → (position : Position) → (step : Nat → Step) →
      ResultsAgree (AllAlike likeness) (readChildren limit depth position step value)
        (readChildren limit depth position step value')
  | _, _, .same _, _, _, _ => .refl AllAlike.refl _
  | _, _, .list inside, depth, position, step | _, _, .tuple inside, depth, position, step =>
    agree_readItems inside depth position step 0
termination_by structural _ _ inside => inside

/-- Nodes in a row that are alike are read as conditions that are alike. -/
theorem agree_readItems : {items items' : List Value} → Node.ItemsAlike likeness items items' →
    (depth : Nat) → (position : Position) → (step : Nat → Step) → (index : Nat) →
      ResultsAgree (AllAlike likeness) (readItems limit depth position step index items)
        (readItems limit depth position step index items')
  -- Item by item, each at its own index.
  | _, _, .nil, _, _, _, _ => .gave .nil
  | _, _, .cons first others, depth, position, step, index =>
    .bind (agree_read first depth _) fun _ _ condition =>
      .bind (agree_readItems others depth position step (index + 1)) fun _ _ conditions =>
        .gave (.cons condition conditions)
termination_by structural _ _ inside => inside

end

end Condition

/-- Queries whose filters are alike have conditions that are alike. -/
theorem Compiler.agree_conditionsOf {likeness : Likeness} (compiler : Compiler)
    {query query' : Query} (inside : Node.ItemsAlike likeness query.filter query'.filter) :
    ResultsAgree (Condition.AllAlike likeness) (compiler.conditionsOf query)
      (compiler.conditionsOf query') :=
  .bind (Node.agree_ofItems compiler.settings.depthLimit inside 0) fun _ _ nodes =>
    Condition.agree_readItems compiler.settings.depthLimit nodes 1 _ _ 0

end ContentQuery
