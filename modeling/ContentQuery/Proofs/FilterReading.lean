import ContentQuery.Proofs.FilterGrammar
import Mathlib.Data.List.Forall2

/-! Maps are read as filter nodes exactly when the grammar has them and their nesting is allowed. -/

namespace ContentQuery

/-- A limit on levels lets pass the depths up to it. -/
theorem Nesting.checkDepth_levels {nesting : Nesting} {limit : Int} {depth : Nat}
    {position : Position} :
    nesting.checkDepth (.levels limit) depth position = .ok () ↔ (depth : Int) ≤ limit := by
  -- A limit that is a number can always be compared.
  by_cases within : (depth : Int) ≤ limit
  · have kept : decide (limit < (depth : Int)) = false := decide_eq_false (by omega)
    simp [Nesting.checkDepth, DepthLimit.exceeded?, kept, within]
  · have exceeded : decide (limit < (depth : Int)) = true := decide_eq_true (by omega)
    simp [Nesting.checkDepth, DepthLimit.exceeded?, exceeded, within]

namespace Node

/-- The keys of a map pass when each of them is one of a filter node. -/
theorem checkKeys_ok {position : Position} {entries : List (Value × Value)} :
    checkKeys position entries = .ok () ↔ ∀ entry ∈ entries, isKey entry.1 = true := by
  -- A key that is none of the known is refused, and so is a key that is no text.
  have none_ : (entries.map Prod.fst).filter (!isKey ·) = [] ↔
      ∀ entry ∈ entries, isKey entry.1 = true := by
    simp [List.filter_eq_nil_iff]
  rw [← none_]
  unfold checkKeys
  constructor
  · intro passes
    split at passes
    · assumption
    · -- Keys that are left over are refused, whether or not all of them are texts.
      split at passes <;> exact nomatch passes
  · intro empty
    rw [empty]

/-- A node has a shape at a position when that is its only one and nothing is wrong with it. -/
theorem shapeAt_ok {node : Node} {position : Position} {shape : Shape} :
    node.shapeAt position = .ok shape ↔ node.shapes = [shape] ∧ node.shapeFault? shape = none := by
  -- A node is of one shape, and that shape has to be sound.
  unfold shapeAt Node.shape
  constructor
  · intro given
    split at given
    · exact nomatch given
    · rename_i only alone
      split at given
      · exact nomatch given
      · rename_i sound
        cases given
        exact ⟨alone, sound⟩
    · exact nomatch given
  · rintro ⟨alone, sound⟩
    rw [alone]
    dsimp only
    rw [sound]
    rfl

/-- A value in the operator's place is null exactly when what it stands for is. -/
theorem isNull_relationOf (operator : Value) : operator.relationOf.isNull = operator.isNull := by
  -- A word is no null, whether or not it is known.
  cases operator with
  | text word =>
    cases known : Operator.ofSymbol? word <;> simp [Value.relationOf, known, Value.isNull]
  | _ => rfl

/-- One word alone stands for the operator that asks for references. -/
theorem ofSymbol?_references {word : String} :
    Operator.ofSymbol? word = some .references ↔ word = Operator.references.symbol := by
  -- The symbols of the operators are told apart.
  constructor
  · intro found
    have same := List.find?_some found
    exact (beq_iff_eq.mp same).symm
  · rintro rfl
    decide

/-- A leaf is sound when its operator is one and the field is there if it is needed. -/
theorem leafFault?_eq_none {field operator value all any negated : Value} :
    (⟨field, operator.relationOf, value, all, any, negated⟩ : Node).leafFault? = none ↔
      isOperator operator = true ∧ (field.isNull = true → asksForReferences operator = true) := by
  cases operator with
  | operator known => simp [leafFault?, Value.relationOf, isOperator, asksForReferences]
  | text word =>
    have asks : (word == Operator.references.symbol) = true ↔
        Operator.ofSymbol? word = some .references := by
      rw [ofSymbol?_references, beq_iff_eq]
    -- A word is one of an operator or of none, and only one operator needs no field.
    cases known : Operator.ofSymbol? word with
    | none =>
      rw [known] at asks
      simp [leafFault?, Value.relationOf, isOperator, asksForReferences, known, asks]
    | some operator =>
      rw [known] at asks
      simp only [Option.some.injEq] at asks
      simp [leafFault?, Value.relationOf, isOperator, asksForReferences, known, asks]
  | _ => simp [leafFault?, Value.relationOf, isOperator]

/-- A node that is read from a map has the shapes of the map. -/
theorem shapes_eq {entries : List (Value × Value)} {all any negated : Value}
    (conjuncts : all.isNull = (Value.lookup? Shape.all.word entries).isNone)
    (disjuncts : any.isNull = (Value.lookup? Shape.any.word entries).isNone)
    (inside : negated.isNull = (Value.lookup? Shape.not.word entries).isNone) :
    (⟨part entries "field", (part entries "operator").relationOf, part entries "value", all, any,
      negated⟩ : Node).shapes = givenShapes entries := by
  unfold shapes givenShapes
  dsimp only
  rw [isNull_relationOf, conjuncts, disjuncts, inside]
  -- A combinator is listed exactly when its key is there.
  cases all : Value.lookup? Shape.all.word entries <;>
    cases any : Value.lookup? Shape.any.word entries <;>
      cases not : Value.lookup? Shape.not.word entries <;> simp [List.filter, all, any, not]

/-- A node nests to some levels when just the limits that leave room for them let it be read. -/
def NestsTo (node : Value) (levels : Nat) : Prop :=
  ∀ (limit : Int) (depth : Nat) (position : Position),
    (∃ condition, Condition.read (.levels limit) depth position node = .ok condition) ↔
      (depth : Int) + levels ≤ limit + 1

section NestsTo

variable {node : Node}

/-- What nests to any levels is not null, which is never read. -/
theorem NestsTo.isNull_eq {given : Value} {levels : Nat} (nests : NestsTo given levels) :
    given.isNull = false := by
  cases given with
  | null =>
    -- A limit that is high enough would let null be read.
    obtain ⟨condition, read⟩ := (nests (1 + levels) 1 (.top "")).mpr (by omega)
    obtain ⟨-, -, refused⟩ := ok_of_bind read
    exact nomatch refused
  | _ => rfl

/-- Whether what stands one level below a node of some shape is read. -/
def ReadsBelow (limit : Int) (depth : Nat) (position : Position) (node : Node) : Shape → Prop
  | .leaf => True
  | .all => ∃ conditions, Condition.readChildren (.levels limit) (depth + 1) position .all
      node.all = .ok conditions
  | .any => ∃ conditions, Condition.readChildren (.levels limit) (depth + 1) position .any
      node.any = .ok conditions
  | .not => ∃ condition, Condition.read (.levels limit) (depth + 1) (position.down .negated)
      node.negated = .ok condition

/-- A sound node of one shape is read within the limit, when what stands below it is read. -/
theorem exists_read {shape : Shape} (alone : node.shapes = [shape])
    (sound : node.shapeFault? shape = none) {limit : Int} {depth : Nat} {position : Position} :
    (∃ condition, Condition.read (.levels limit) depth position node.toValue = .ok condition) ↔
      (depth : Int) ≤ limit ∧ ReadsBelow limit depth position node shape := by
  have shaped : node.shapeAt position = .ok shape := shapeAt_ok.mpr ⟨alone, sound⟩
  unfold toValue Condition.read
  constructor
  · intro read
    -- The depth is checked first, and the shape decides what is read below the node.
    obtain ⟨_, passes, read⟩ := exists_ok_bind.mp read
    obtain ⟨known, shaped', read⟩ := exists_ok_bind.mp read
    cases shaped.symm.trans shaped'
    refine ⟨Nesting.checkDepth_levels.mp passes, ?_⟩
    cases shape with
    | leaf => trivial
    | all => exact (exists_ok_map _).mp read
    | any => exact (exists_ok_map _).mp read
    | not => exact (exists_ok_map _).mp read
  · rintro ⟨within, below⟩
    refine exists_ok_bind.mpr ⟨(), Nesting.checkDepth_levels.mpr within, ?_⟩
    refine exists_ok_bind.mpr ⟨shape, shaped, ?_⟩
    cases shape with
    | leaf => exact ⟨_, rfl⟩
    | all => exact (exists_ok_map _).mpr below
    | any => exact (exists_ok_map _).mpr below
    | not => exact (exists_ok_map _).mpr below

/-- A sound leaf nests to one level. -/
theorem nestsTo_leaf (alone : node.shapes = [.leaf]) (sound : node.leafFault? = none) :
    NestsTo node.toValue 1 := by
  -- Nothing lies below a leaf.
  intro limit depth position
  rw [exists_read alone sound]
  simp only [ReadsBelow, and_true]
  omega

/-- A negation nests to one level more than what it negates. -/
theorem nestsTo_negated {levels : Nat} (alone : node.shapes = [.not])
    (inside : NestsTo node.negated levels) : NestsTo node.toValue (1 + levels) := by
  -- A negation adds one level to what it holds.
  intro limit depth position
  rw [exists_read alone rfl]
  unfold ReadsBelow
  rw [inside]
  omega

/-- Nodes in a row are read when the limit leaves room for the deepest of them. -/
theorem exists_readItems {items nodes : List Value}
    (each : List.Forall₂ (fun item node => NestsTo node (levels item)) items nodes) {limit : Int}
    {depth : Nat} (within : (depth : Int) ≤ limit + 1) (position : Position) (step : Nat → Step)
    (index : Nat) :
    (∃ conditions, Condition.readItems (.levels limit) depth position step index nodes =
      .ok conditions) ↔ (depth : Int) + deepest items ≤ limit + 1 := by
  induction each generalizing index with
  | nil => simp [Condition.readItems, deepest, within]
  | @cons item node items nodes first others ih =>
    unfold Condition.readItems deepest
    rw [exists_ok_bind]
    -- Each node has to fit by itself, wherever in the row it stands.
    have later := ih (index + 1)
    have here := first limit depth (position.down (step index))
    constructor
    · rintro ⟨condition, read, rest⟩
      have room := here.mp ⟨condition, read⟩
      have rest := later.mp ((exists_ok_map _).mp rest)
      omega
    · intro room
      obtain ⟨condition, read⟩ := here.mpr (by omega)
      exact ⟨condition, read, (exists_ok_map _).mpr (later.mpr (by omega))⟩

/-- A conjunction or disjunction nests to one level more than the deepest node it joins. -/
theorem nestsTo_joined {shape : Shape} {items nodes : List Value}
    (alone : node.shapes = [shape])
    (joined : shape = .all ∧ node.all = .list nodes ∨ shape = .any ∧ node.any = .list nodes)
    (each : List.Forall₂ (fun item node => NestsTo node (levels item)) items nodes) :
    NestsTo node.toValue (1 + deepest items) := by
  intro limit depth position
  -- Which of the two combinators it is decides only where the nodes stand.
  have sound : node.shapeFault? shape = none := by
    rcases joined with ⟨rfl, held⟩ | ⟨rfl, held⟩ <;> simp [shapeFault?, held, isList]
  rw [exists_read alone sound]
  by_cases within : (depth : Int) ≤ limit
  · have allowed : ((depth + 1 : Nat) : Int) ≤ limit + 1 := by omega
    have read := fun step => exists_readItems each allowed position step 0
    rcases joined with ⟨rfl, held⟩ | ⟨rfl, held⟩
    · simp only [ReadsBelow, held, Condition.readChildren, read]
      omega
    · simp only [ReadsBelow, held, Condition.readChildren, read]
      omega
  · constructor
    · rintro ⟨allowed, -⟩
      exact absurd allowed within
    · intro room
      omega

end NestsTo

/-- A value that is read at a depth is a filter, and the node made of it nests as it does. -/
structure ReadsAs (limit : Int) (depth : Nat) (data node : Value) : Prop where
  isFilter : IsFilter data
  within : (depth : Int) + levels data ≤ limit + 1
  nests : NestsTo node (levels data)

/-- How the entry of a negation is read, where there is one. -/
def NegatedReads (limit : Int) (depth : Nat) (given : Value) : Option Value → Prop
  | none => given = .null
  | some inner => ReadsAs limit depth inner given

/-- How the entry of a conjunction or disjunction is read, where there is one. -/
def ChildrenRead (limit : Int) (depth : Nat) (given : Value) : Option Value → Prop
  | none => given = .null
  | some held => ∃ items nodes, (held = .list items ∨ held = .tuple items) ∧
      given = .list nodes ∧ List.Forall₂ (ReadsAs limit depth) items nodes

section Maps

variable {limit : Int} {depth : Nat} {entries : List (Value × Value)}

/-- What stands for a negation is null exactly when there is none. -/
theorem NegatedReads.isNull_eq {given : Value} {held : Option Value}
    (reads : NegatedReads limit depth given held) : given.isNull = held.isNone := by
  -- A node was read where something was held, and a node is never null.
  cases held with
  | none =>
    have absent : given = .null := reads
    rw [absent]
    rfl
  | some inner => exact (show ReadsAs limit depth inner given from reads).nests.isNull_eq

/-- What stands for a conjunction or disjunction is null exactly when there is none. -/
theorem ChildrenRead.isNull_eq {given : Value} {held : Option Value}
    (reads : ChildrenRead limit depth given held) : given.isNull = held.isNone := by
  -- A list was read where something was held, and a list is never null.
  cases held with
  | none =>
    have absent : given = .null := reads
    rw [absent]
    rfl
  | some inner =>
    obtain ⟨items, nodes, -, made, -⟩ := reads
    rw [made]
    rfl

/-- Items that are read are filters, and the limit leaves room for each of them. -/
theorem each_of_readsAs {items nodes : List Value}
    (reads : List.Forall₂ (ReadsAs limit depth) items nodes) :
    ∀ item ∈ items, IsFilter item ∧ (depth : Int) + levels item ≤ limit + 1 := by
  induction reads with
  | nil => exact nofun
  | cons first _ ih => exact List.forall_mem_cons.mpr ⟨⟨first.isFilter, first.within⟩, ih⟩

/-- A map that joins items which are read is read itself. -/
theorem readsAs_joined {shape : Shape} {node : Node} {items nodes : List Value}
    (keys : ∀ entry ∈ entries, isKey entry.1 = true) (within : (depth : Int) ≤ limit)
    (only : givenShapes entries = [shape]) (alone : node.shapes = [shape])
    (held : Value.lookup? shape.word entries = some (.list items) ∨
      Value.lookup? shape.word entries = some (.tuple items))
    (joined : shape = .all ∧ node.all = .list nodes ∨ shape = .any ∧ node.any = .list nodes)
    (reads : List.Forall₂ (ReadsAs limit (depth + 1)) items nodes) :
    ReadsAs limit depth (.map entries) node.toValue := by
  have joins : shape = .all ∨ shape = .any := joined.imp And.left And.left
  have each := each_of_readsAs reads
  have count := levels_joined joins only held
  -- The limit leaves room for the deepest item, as it does for all of them.
  have room : deepest items ≤ (limit - depth).toNat := by
    refine deepest_le.mpr fun item among => ?_
    have fits := (each item among).2
    omega
  refine ⟨.joined keys joins only held fun item among => (each item among).1, ?_, ?_⟩
  · rw [count]
    omega
  · rw [count]
    exact nestsTo_joined alone joined (reads.imp fun _ _ read => read.nests)

/-- A map is read when its keys are those of a node, its depth is allowed and its parts are read. -/
theorem readsAs_map {position : Position} {shape : Shape} {all any negated : Value}
    (keys : ∀ entry ∈ entries, isKey entry.1 = true) (within : (depth : Int) ≤ limit)
    (inside : NegatedReads limit (depth + 1) negated (Value.lookup? Shape.not.word entries))
    (conjuncts : ChildrenRead limit (depth + 1) all (Value.lookup? Shape.all.word entries))
    (disjuncts : ChildrenRead limit (depth + 1) any (Value.lookup? Shape.any.word entries))
    (shaped : shapeAt ⟨part entries "field", (part entries "operator").relationOf,
      part entries "value", all, any, negated⟩ position = .ok shape) :
    ReadsAs limit depth (.map entries) (toValue ⟨part entries "field",
      (part entries "operator").relationOf, part entries "value", all, any, negated⟩) := by
  obtain ⟨alone, sound⟩ := shapeAt_ok.mp shaped
  -- The node has the shapes of the map, since its parts are null where the map has none.
  have only : givenShapes entries = [shape] :=
    (shapes_eq conjuncts.isNull_eq disjuncts.isNull_eq inside.isNull_eq).symm.trans alone
  cases shape with
  | leaf =>
    obtain ⟨operator, field⟩ := leafFault?_eq_none.mp sound
    have count := levels_leaf only
    refine ⟨.leaf keys ⟨only, operator, field⟩, ?_, ?_⟩
    · rw [count]
      omega
    · rw [count]
      exact nestsTo_leaf alone sound
  | all =>
    obtain ⟨value, held⟩ := held_of_only only (by simp)
    rw [held] at conjuncts
    obtain ⟨items, nodes, kind, made, reads⟩ := conjuncts
    have kind := kind.imp (held.trans <| congrArg some ·) (held.trans <| congrArg some ·)
    exact readsAs_joined keys within only alone kind (.inl ⟨rfl, made⟩) reads
  | any =>
    obtain ⟨value, held⟩ := held_of_only only (by simp)
    rw [held] at disjuncts
    obtain ⟨items, nodes, kind, made, reads⟩ := disjuncts
    have kind := kind.imp (held.trans <| congrArg some ·) (held.trans <| congrArg some ·)
    exact readsAs_joined keys within only alone kind (.inr ⟨rfl, made⟩) reads
  | not =>
    obtain ⟨inner, held⟩ := held_of_only only (by simp)
    rw [held] at inside
    have reads : ReadsAs limit (depth + 1) inner negated := inside
    have count := levels_negated only held
    have room := reads.within
    refine ⟨.negated keys only held reads.isFilter, ?_, ?_⟩
    · rw [count]
      omega
    · rw [count]
      exact nestsTo_negated alone reads.nests

end Maps

section Reading

variable {limit : Int}

mutual

/-- What is read as a node is a filter that the limit leaves room for. -/
theorem readsAs_of_ofDictionary (data : Value) (raw : isRaw data = true) {depth : Nat}
    {position : Position} {node : Value}
    (read : ofDictionary (.levels limit) depth position data = .ok node) :
    ReadsAs limit depth data node := by
  cases data with
  | map entries =>
    unfold ofDictionary at read
    obtain ⟨_, within, read⟩ := ok_of_bind read
    obtain ⟨_, keys, read⟩ := ok_of_bind read
    obtain ⟨negated, inside, read⟩ := ok_of_bind read
    obtain ⟨all, conjuncts, read⟩ := ok_of_bind read
    obtain ⟨any, disjuncts, read⟩ := ok_of_bind read
    obtain ⟨shape, shaped, read⟩ := ok_of_bind read
    cases read
    exact readsAs_map (checkKeys_ok.mp keys) (Nesting.checkDepth_levels.mp within)
      (reads_of_negatedOf entries raw inside) (reads_of_childrenOf entries raw conjuncts)
      (reads_of_childrenOf entries raw disjuncts) shaped
  | node _ _ _ _ _ _ => exact nomatch raw
  | _ =>
    -- Whatever else is given is refused once its depth is checked.
    obtain ⟨_, -, refused⟩ := ok_of_bind read
    exact nomatch refused
termination_by structural data

/-- A negation that is read is a filter that the limit leaves room for. -/
theorem reads_of_negatedOf (entries : List (Value × Value)) (raw : entriesRaw entries = true)
    {depth : Nat} {position : Position} {given : Value}
    (read : negatedOf (.levels limit) depth position entries = .ok given) :
    NegatedReads limit depth given (Value.lookup? Shape.not.word entries) := by
  match entries with
  | [] =>
    cases read
    rfl
  | (key, value) :: rest =>
    obtain ⟨rawHere, rawLater⟩ := Bool.and_eq_true_iff.mp raw
    rw [Value.lookup?_cons]
    unfold negatedOf at read
    -- The first entry under the key is the one that is read and the one that is looked up.
    split at read
    · rename_i named
      rw [if_pos named]
      exact readsAs_of_ofDictionary value rawHere read
    · rename_i unnamed
      rw [if_neg unnamed]
      exact reads_of_negatedOf rest rawLater read
termination_by structural entries

/-- The nodes of a conjunction or disjunction that is read are read one by one. -/
theorem reads_of_childrenOf (entries : List (Value × Value)) (raw : entriesRaw entries = true)
    {depth : Nat} {position : Position} {shape : Shape} {given : Value}
    (read : childrenOf (.levels limit) depth position shape entries = .ok given) :
    ChildrenRead limit depth given (Value.lookup? shape.word entries) := by
  -- By induction on the entries; the first that is named like the shape is read.
  match entries with
  | [] =>
    cases read
    rfl
  | (key, value) :: rest =>
    obtain ⟨rawHere, rawLater⟩ := Bool.and_eq_true_iff.mp raw
    rw [Value.lookup?_cons]
    unfold childrenOf at read
    split at read
    · rename_i named
      rw [if_pos named]
      exact reads_of_childrenIn value rawHere read
    · rename_i unnamed
      rw [if_neg unnamed]
      exact reads_of_childrenOf rest rawLater read
termination_by structural entries

/-- The nodes of a list or a tuple that is read are read one by one. -/
theorem reads_of_childrenIn (value : Value) (raw : isRaw value = true) {depth : Nat}
    {position : Position} {shape : Shape} {given : Value}
    (read : childrenIn (.levels limit) depth position shape value = .ok given) :
    ChildrenRead limit depth given (some value) := by
  -- Only a list or a tuple holds children.
  cases value with
  | list items =>
    obtain ⟨nodes, each, read⟩ := ok_of_bind read
    cases read
    exact ⟨items, nodes, .inl rfl, rfl, reads_of_itemsOf items raw each⟩
  | tuple items =>
    obtain ⟨nodes, each, read⟩ := ok_of_bind read
    cases read
    exact ⟨items, nodes, .inr rfl, rfl, reads_of_itemsOf items raw each⟩
  | _ => exact nomatch read
termination_by structural value

/-- Items that are read as nodes are read one by one. -/
theorem reads_of_itemsOf (items : List Value) (raw : allRaw items = true) {depth : Nat}
    {position : Position} {shape : Shape} {index : Nat} {nodes : List Value}
    (read : itemsOf (.levels limit) depth position shape index items = .ok nodes) :
    List.Forall₂ (ReadsAs limit depth) items nodes := by
  -- By induction on the items, each read in its place.
  match items with
  | [] =>
    cases read
    exact .nil
  | item :: rest =>
    obtain ⟨rawHere, rawLater⟩ := Bool.and_eq_true_iff.mp raw
    obtain ⟨node, first, read⟩ := ok_of_bind read
    obtain ⟨others, later, read⟩ := ok_of_bind read
    cases read
    exact .cons (readsAs_of_ofDictionary item rawHere first) (reads_of_itemsOf rest rawLater later)
termination_by structural items

end

end Reading

section Completeness

variable {limit : Int} {depth : Nat} {position : Position} {entries : List (Value × Value)}

/-- What is read as a node is one. -/
theorem exists_node_of_ofDictionary {limit : DepthLimit} {data given : Value}
    (read : ofDictionary limit depth position data = .ok given) :
    ∃ node : Node, given = node.toValue := by
  -- A map is read into a node, and a node is passed; anything else is refused.
  cases data with
  | map entries =>
    unfold ofDictionary at read
    obtain ⟨_, -, read⟩ := ok_of_bind read
    obtain ⟨_, -, read⟩ := ok_of_bind read
    obtain ⟨negated, -, read⟩ := ok_of_bind read
    obtain ⟨all, -, read⟩ := ok_of_bind read
    obtain ⟨any, -, read⟩ := ok_of_bind read
    obtain ⟨_, -, read⟩ := ok_of_bind read
    cases read
    exact ⟨_, rfl⟩
  | node field relation value all any negated =>
    obtain ⟨_, -, read⟩ := ok_of_bind read
    cases read
    exact ⟨⟨field, relation, value, all, any, negated⟩, rfl⟩
  | _ =>
    obtain ⟨_, -, refused⟩ := ok_of_bind read
    exact nomatch refused

/-- The negation of a map is what its key holds. -/
theorem negatedOf_eq (limit : DepthLimit) (depth : Nat) (position : Position) :
    negatedOf limit depth position entries =
      match Value.lookup? Shape.not.word entries with
      | none => .ok .null
      | some inner => ofDictionary limit depth (position.down .negated) inner := by
  -- By induction on the entries, as `lookup?` goes through them.
  induction entries with
  | nil => rfl
  | cons entry rest ih =>
    rw [Value.lookup?_cons]
    unfold negatedOf
    split
    · rfl
    · exact ih

/-- The children of a map are what the key of their combinator holds. -/
theorem childrenOf_eq (limit : DepthLimit) (depth : Nat) (position : Position) (shape : Shape) :
    childrenOf limit depth position shape entries =
      match Value.lookup? shape.word entries with
      | none => .ok .null
      | some value => childrenIn limit depth position shape value := by
  -- By induction on the entries, as `lookup?` goes through them.
  induction entries with
  | nil => rfl
  | cons entry rest ih =>
    rw [Value.lookup?_cons]
    unfold childrenOf
    split
    · rfl
    · exact ih

/-- Items that can each be read at a depth can be read in a row. -/
theorem exists_itemsOf {shape : Shape} {items : List Value}
    (each : ∀ item ∈ items, ∀ position, ∃ node,
      ofDictionary (.levels limit) depth position item = .ok node) (index : Nat) :
    ∃ nodes, itemsOf (.levels limit) depth position shape index items = .ok nodes := by
  -- By induction on the items, each of which can be read wherever it stands.
  induction items generalizing index with
  | nil => exact ⟨[], rfl⟩
  | cons item rest ih =>
    obtain ⟨here, later⟩ := List.forall_mem_cons.mp each
    obtain ⟨node, read⟩ := here (position.down (if shape = .all then .all index else .any index))
    obtain ⟨nodes, others⟩ := ih later (index + 1)
    unfold itemsOf
    exact exists_ok_bind.mpr ⟨node, read, (exists_ok_map _).mpr ⟨nodes, others⟩⟩

/-- A part of a map that can be read gives null exactly when the map does not have it. -/
structure PartRead (read : Except Fault Value) (held : Option Value) (given : Value) : Prop where
  read : read = .ok given
  there : given.isNull = held.isNone

/-- A map without a negation has null in its place. -/
theorem partRead_negatedOf (absent : Value.lookup? Shape.not.word entries = none) :
    PartRead (negatedOf (.levels limit) depth position entries)
      (Value.lookup? Shape.not.word entries) .null := by
  constructor
  · rw [negatedOf_eq, absent]
  · rw [absent]
    rfl

/-- A map without a conjunction or disjunction has null in its place. -/
theorem partRead_childrenOf {shape : Shape}
    (absent : Value.lookup? shape.word entries = none) :
    PartRead (childrenOf (.levels limit) depth position shape entries)
      (Value.lookup? shape.word entries) .null := by
  constructor
  · rw [childrenOf_eq, absent]
  · rw [absent]
    rfl

/-- A map whose parts can be read, and that has one shape, is read. -/
theorem exists_ofDictionary_map {shape : Shape} {all any negated : Value}
    (keys : ∀ entry ∈ entries, isKey entry.1 = true) (within : (depth : Int) ≤ limit)
    (only : givenShapes entries = [shape])
    (inside : PartRead (negatedOf (.levels limit) (depth + 1) position entries)
      (Value.lookup? Shape.not.word entries) negated)
    (conjuncts : PartRead (childrenOf (.levels limit) (depth + 1) position .all entries)
      (Value.lookup? Shape.all.word entries) all)
    (disjuncts : PartRead (childrenOf (.levels limit) (depth + 1) position .any entries)
      (Value.lookup? Shape.any.word entries) any)
    (sound : shapeFault? ⟨part entries "field", (part entries "operator").relationOf,
      part entries "value", all, any, negated⟩ shape = none) :
    ∃ node, ofDictionary (.levels limit) depth position (.map entries) = .ok node := by
  -- The six steps of the reading are taken in turn, each by one of the hypotheses.
  have shapes := shapes_eq conjuncts.there disjuncts.there inside.there
  unfold ofDictionary
  refine exists_ok_bind.mpr ⟨(), Nesting.checkDepth_levels.mpr within, ?_⟩
  refine exists_ok_bind.mpr ⟨(), checkKeys_ok.mpr keys, ?_⟩
  refine exists_ok_bind.mpr ⟨negated, inside.read, ?_⟩
  refine exists_ok_bind.mpr ⟨all, conjuncts.read, ?_⟩
  refine exists_ok_bind.mpr ⟨any, disjuncts.read, ?_⟩
  exact exists_ok_bind.mpr ⟨shape, shapeAt_ok.mpr ⟨shapes.trans only, sound⟩, _, rfl⟩

/-- A map that joins items which can be read is read. -/
theorem exists_ofDictionary_joined {shape : Shape} {items : List Value}
    (keys : ∀ entry ∈ entries, isKey entry.1 = true) (joins : shape = .all ∨ shape = .any)
    (only : givenShapes entries = [shape])
    (held : Value.lookup? shape.word entries = some (.list items) ∨
      Value.lookup? shape.word entries = some (.tuple items)) (within : (depth : Int) ≤ limit)
    (each : ∀ item ∈ items, ∀ position, ∃ node,
      ofDictionary (.levels limit) (depth + 1) position item = .ok node) :
    ∃ node, ofDictionary (.levels limit) depth position (.map entries) = .ok node := by
  obtain ⟨nodes, read⟩ : ∃ nodes, itemsOf (.levels limit) (depth + 1) position shape 0 items =
      .ok nodes := exists_itemsOf each 0
  have children : PartRead (childrenOf (.levels limit) (depth + 1) position shape entries)
      (Value.lookup? shape.word entries) (.list nodes) := by
    rw [childrenOf_eq]
    rcases held with held | held <;> rw [held] <;> exact ⟨congrArg (· >>= _) read, rfl⟩
  -- The other combinator is absent, whichever of the two joins.
  rcases joins with rfl | rfl
  · exact exists_ofDictionary_map keys within only
      (partRead_negatedOf (absent_of_only only (by simp) nofun)) children
      (partRead_childrenOf (absent_of_only only (by simp) nofun)) rfl
  · exact exists_ofDictionary_map keys within only
      (partRead_negatedOf (absent_of_only only (by simp) nofun))
      (partRead_childrenOf (absent_of_only only (by simp) nofun)) children rfl

/-- A filter that the limit leaves room for is read. -/
theorem exists_ofDictionary {data : Value} (filter : IsFilter data)
    (room : (depth : Int) + levels data ≤ limit + 1) :
    ∃ node, ofDictionary (.levels limit) depth position data = .ok node := by
  -- By induction on the filter. What is below lies one level deeper, and has as much less room.
  induction filter generalizing depth position with
  | leaf keys leaf =>
    have count := levels_leaf leaf.shape
    exact exists_ofDictionary_map keys (by omega) leaf.shape
      (partRead_negatedOf (absent_of_only leaf.shape (by simp) nofun))
      (partRead_childrenOf (absent_of_only leaf.shape (by simp) nofun))
      (partRead_childrenOf (absent_of_only leaf.shape (by simp) nofun))
      (leafFault?_eq_none.mpr ⟨leaf.operator, leaf.field⟩)
  | joined keys joins only held each ih =>
    have count := levels_joined joins only held
    refine exists_ofDictionary_joined keys joins only held (by omega) fun item among position => ?_
    have fits := deepest_le.mp (Nat.le_refl _) item among
    exact ih item among (by omega)
  | @negated entries inner keys only held inside ih =>
    have count := levels_negated only held
    have room : ((depth + 1 : Nat) : Int) + levels inner ≤ limit + 1 := by omega
    obtain ⟨given, read⟩ : ∃ given, ofDictionary (.levels limit) (depth + 1)
        (position.down .negated) inner = .ok given := ih room
    obtain ⟨node, rfl⟩ := exists_node_of_ofDictionary read
    have part : PartRead (negatedOf (.levels limit) (depth + 1) position entries)
        (Value.lookup? Shape.not.word entries) node.toValue := by
      rw [negatedOf_eq, held]
      exact ⟨read, rfl⟩
    exact exists_ofDictionary_map keys (by omega) only part
      (partRead_childrenOf (absent_of_only only (by simp) nofun))
      (partRead_childrenOf (absent_of_only only (by simp) nofun)) rfl

end Completeness

/--
Data without nodes is read exactly when it is a filter of the grammar within the limit.

The node that is made of it passes under another limit exactly when the data does.
-/
theorem filters_are_read {data : Value} (raw : isRaw data = true) (limit : Int) :
    ((∃ node, ofDictionary (.levels limit) 1 (.top "filter") data = .ok node) ↔
      IsFilter data ∧ (levels data : Int) ≤ limit) ∧
      ∀ node, ofDictionary (.levels limit) 1 (.top "filter") data = .ok node → ∀ limit' : Int,
        (∃ conditions, Condition.readAll (.levels limit') "filter" [node] = .ok conditions) ↔
          (levels data : Int) ≤ limit' := by
  have reads : ∀ node, ofDictionary (.levels limit) 1 (.top "filter") data = .ok node →
      ReadsAs limit 1 data node := fun node => readsAs_of_ofDictionary data raw
  refine ⟨⟨?_, ?_⟩, ?_⟩
  · rintro ⟨node, read⟩
    have reads := reads node read
    have within := reads.within
    exact ⟨reads.isFilter, by omega⟩
  · rintro ⟨filter, within⟩
    exact exists_ofDictionary filter (by omega)
  · intro node read limit'
    have nests := (reads node read).nests limit' 1 ((Position.top "filter").down (.item 0))
    -- The list holds the node alone, so that it is read when the node is.
    have alone : (∃ conditions, Condition.readAll (.levels limit') "filter" [node] =
        .ok conditions) ↔ ∃ condition, Condition.read (.levels limit') 1
          ((Position.top "filter").down (.item 0)) node = .ok condition := by
      unfold Condition.readAll Condition.readItems
      rw [exists_ok_bind]
      exact ⟨fun ⟨condition, read, _⟩ => ⟨condition, read⟩,
        fun ⟨condition, read⟩ => ⟨condition, read, _, rfl⟩⟩
    rw [alone, nests]
    omega

/-- A filter with three levels: a negation of a conjunction, given as a tuple, of two leaves. -/
def threeLevels : Value :=
  .map [(.text "not", .map [(.text "and", .tuple
    [.map [(.text "field", .text "views"), (.text "operator", .text ">"), (.text "value", .int 3)],
      .map [(.text "field", .null), (.text "operator", .text "references"),
        (.text "value", .text "a")]])])]

/-- Three levels are read under a limit of three, and pass again under just such limits. -/
theorem filters_are_read_threeLevels :
    isRaw threeLevels = true ∧ IsFilter threeLevels ∧
      ∃ node, ofDictionary (.levels 3) 1 (.top "filter") threeLevels = .ok node ∧
        ∀ limit' : Int, (∃ conditions, Condition.readAll (.levels limit') "filter" [node] =
          .ok conditions) ↔ 3 ≤ limit' := by
  -- The filter is read once at its own depth, and the theorem tells for every other limit.
  have raw : isRaw threeLevels = true := rfl
  obtain ⟨accepted, passes⟩ := filters_are_read raw 3
  obtain ⟨node, read⟩ : ∃ node, ofDictionary (.levels 3) 1 (.top "filter") threeLevels =
      .ok node := ⟨_, rfl⟩
  exact ⟨raw, (accepted.mp ⟨node, read⟩).1, node, read, passes node read⟩

end Node

end ContentQuery
