import ContentQuery.Proofs.FilterGrammar
import ContentQuery.Proofs.Positions

/-! What can be wrong with a filter node by itself, and that its shape is refused for just that. -/

namespace ContentQuery

namespace Value

/-- The shapes that a node speaks for, or the map of one. -/
def givenShapes : Value → List Shape
  | .node field relation value all any negated =>
    Node.shapes ⟨field, relation, value, all, any, negated⟩
  | .map entries => Node.givenShapes entries
  | _ => []

/-- What stands in the field's place of a node, or of the map of one. -/
def fieldPart : Value → Value
  | .node field _ _ _ _ _ => field
  | .map entries => Node.part entries "field"
  | _ => .null

/-- What stands in the operator's place of a node, or of the map of one. -/
def operatorPart : Value → Value
  | .node _ relation _ _ _ _ => relation
  | .map entries => (Node.part entries "operator").relationOf
  | _ => .null

end Value

namespace NodeFault

/-- What can be wrong with the shape of a node, or of the map of one. -/
inductive Misshapes (node : Value) : NodeFault → Prop
  | noShape (none : node.givenShapes = []) : Misshapes node .noShape
  | severalShapes (several : 1 < node.givenShapes.length) :
    Misshapes node (.severalShapes node.givenShapes)
  | noOperator (leaf : node.givenShapes = [.leaf]) (missing : node.operatorPart.isNull = true) :
    Misshapes node (.noOperator node.fieldPart)
  | operatorNotText (leaf : node.givenShapes = [.leaf]) (there : node.operatorPart.isNull = false)
    (other : Node.isOperator node.operatorPart = false) :
    Misshapes node (.operatorNotText node.operatorPart.typeName)
  | fieldMissing (leaf : node.givenShapes = [.leaf])
    (operator : Node.isOperator node.operatorPart = true)
    (missing : node.fieldPart.isNull = true)
    (needed : node.operatorPart ≠ .operator .references) :
    Misshapes node (.fieldMissing node.operatorPart.operatorName)
  | childrenNotList {shape : Shape} {held : Value} (joins : shape = .all ∨ shape = .any)
    (has : node.partOf? shape = some held) (other : held.listed? = none) :
    Misshapes node (.childrenNotList shape)

/-- What can be wrong with a value in the place of a filter node. -/
inductive OfNode : Value → NodeFault → Prop
  | notNode {value : Value} (other : Node.ofValue? value = none) :
    OfNode value (.notNode value.typeName)
  | misshapen {node : Node} {fault : NodeFault} (wrong : Misshapes node.toValue fault) :
    OfNode node.toValue fault

/-- What can be wrong with a value in the place of the map of a filter node. -/
inductive OfMap : Value → NodeFault → Prop
  | notMap {value : Value} (noMap : ∀ entries, value ≠ .map entries)
    (noNode : Node.ofValue? value = none) : OfMap value (.notMap value.typeName)
  | unknownKeys {entries : List (Value × Value)} {names : List String} (present : names ≠ [])
    (unknown : (names.map Value.text).Perm ((entries.map Prod.fst).filter (!Node.isKey ·))) :
    OfMap (.map entries) (.unknownKeys names)
  | misshapen {entries : List (Value × Value)} {fault : NodeFault}
    (wrong : Misshapes (.map entries) fault) : OfMap (.map entries) fault

end NodeFault

namespace Node

variable {node : Node} {shape : Shape} {fault : NodeFault}

/-- A node speaks for a conjunction when that part of it is there. -/
theorem all_mem_shapes : .all ∈ node.shapes ↔ node.all.isNull = false := by
  unfold shapes
  cases node.all.isNull <;> simp

/-- A node speaks for a disjunction when that part of it is there. -/
theorem any_mem_shapes : .any ∈ node.shapes ↔ node.any.isNull = false := by
  unfold shapes
  cases node.any.isNull <;> simp

/-- A node speaks for a negation when that part of it is there. -/
theorem not_mem_shapes : .not ∈ node.shapes ↔ node.negated.isNull = false := by
  unfold shapes
  cases node.negated.isNull <;> simp

/-- The parts of a node for other shapes than its only one are null. -/
theorem isNull_of_alone {other : Shape} {part : Value}
    (speaks : other ∈ node.shapes ↔ part.isNull = false) (alone : node.shapes = [shape])
    (apart : other ≠ shape) : part.isNull = true := by
  -- A part that is there would speak for a second shape.
  cases null : part.isNull with
  | true => rfl
  | false =>
    have given := speaks.mpr null
    rw [alone, List.mem_singleton] at given
    exact absurd given apart

/-- A combinator that a node speaks for is one of its parts. -/
theorem exists_partOf? (given : shape ∈ node.shapes) (combinator : shape ≠ .leaf) :
    ∃ held, node.toValue.partOf? shape = some held := by
  -- A shape was given because its part is there.
  cases shape with
  | leaf => exact absurd rfl combinator
  | all => exact ⟨_, Value.ite_isNull_eq_some.mpr ⟨all_mem_shapes.mp given, rfl⟩⟩
  | any => exact ⟨_, Value.ite_isNull_eq_some.mpr ⟨any_mem_shapes.mp given, rfl⟩⟩
  | not => exact ⟨_, Value.ite_isNull_eq_some.mpr ⟨not_mem_shapes.mp given, rfl⟩⟩

/-- A node speaks for the shapes of which it has the part. -/
theorem mem_shapes_of_partOf? {held : Value} (has : node.toValue.partOf? shape = some held) :
    shape ∈ node.shapes := by
  -- A part is held where it is not null, which is what gives its shape.
  cases shape with
  | leaf => exact nomatch has
  | all => exact all_mem_shapes.mpr (Value.ite_isNull_eq_some.mp has).1
  | any => exact any_mem_shapes.mpr (Value.ite_isNull_eq_some.mp has).1
  | not => exact not_mem_shapes.mpr (Value.ite_isNull_eq_some.mp has).1

/-- A conjunction or disjunction is at fault when its part is neither a list nor a tuple. -/
theorem shapeFault?_eq {held : Value} (joins : shape = .all ∨ shape = .any)
    (has : node.toValue.partOf? shape = some held) : node.shapeFault? shape =
      if held.listed?.isSome then none else some (.childrenNotList shape) := by
  -- The two shapes ask the same of what they hold: a list or a tuple.
  have isList_eq : isList held = held.listed?.isSome := by cases held <;> rfl
  rw [← isList_eq]
  rcases joins with rfl | rfl
  · rw [← (Value.ite_isNull_eq_some.mp has).2]
    rfl
  · rw [← (Value.ite_isNull_eq_some.mp has).2]
    rfl

/-- What is wrong with a leaf is what it is refused for. -/
theorem misshapes_of_leafFault (alone : node.shapes = [.leaf])
    (refused : node.leafFault? = some fault) : NodeFault.Misshapes node.toValue fault := by
  -- The cases are those of what stands in the operator's place: nothing, an operator, a text, or
  -- something else.
  have part : node.toValue.operatorPart = node.relation := rfl
  unfold leafFault? at refused
  split at refused
  · rename_i missing
    cases refused
    exact .noOperator alone (by rw [part, missing]; rfl)
  · rename_i known given
    split at refused
    · rename_i wrong
      obtain ⟨missing, other⟩ := Bool.and_eq_true_iff.mp wrong
      cases refused
      have name : node.toValue.operatorPart.operatorName = known.symbol := by rw [part, given]; rfl
      rw [← name]
      -- Only references may go without a field, and this operator is another one.
      refine .fieldMissing alone (by rw [part, given]; rfl) missing ?_
      rw [part, given]
      intro same
      cases same
      exact absurd other (by decide)
    · exact nomatch refused
  · rename_i word given
    split at refused
    · rename_i missing
      cases refused
      rw [given] at part
      have name : node.toValue.operatorPart.operatorName = word := by rw [part]; rfl
      rw [← name]
      exact .fieldMissing alone (by rw [part]; rfl) missing (by rw [part]; exact nofun)
    · exact nomatch refused
  · rename_i noNull noOperator noText
    cases refused
    refine .operatorNotText alone ?_ ?_
    · rw [part]
      cases given : node.relation with
      | null => exact absurd given noNull
      | _ => rfl
    · rw [part]
      cases given : node.relation with
      | operator known => exact absurd given (noOperator known)
      | text word => exact absurd given (noText word)
      | _ => rfl

/-- What is wrong with a conjunction or disjunction is what it is refused for. -/
theorem misshapes_of_shapeFault (alone : node.shapes = [shape])
    (joins : shape = .all ∨ shape = .any) (refused : node.shapeFault? shape = some fault) :
    NodeFault.Misshapes node.toValue fault := by
  -- What the node holds for its shape is there, so that it can only be of the wrong kind.
  have given : shape ∈ node.shapes := by rw [alone]; exact List.mem_singleton_self shape
  obtain ⟨held, has⟩ := exists_partOf? given (by rcases joins with rfl | rfl <;> exact nofun)
  rw [shapeFault?_eq joins has] at refused
  cases listed : held.listed? with
  | some items =>
    rw [listed] at refused
    exact nomatch refused
  | none =>
    rw [listed] at refused
    cases refused
    exact .childrenNotList joins has listed

/-- A shape that is refused at a position is refused there for what is wrong with it. -/
theorem exists_of_shapeAt {position : Position} {refusal : Fault}
    (refused : node.shapeAt position = .error refusal) :
    ∃ fault, node.shape = .error fault ∧ refusal = .malformed fault position := by
  -- The fault of the shape is put at the position, and a sound shape has none.
  unfold shapeAt at refused
  cases shaped : node.shape with
  | ok =>
    rw [shaped] at refused
    exact nomatch refused
  | error fault =>
    rw [shaped] at refused
    cases refused
    exact ⟨fault, rfl, rfl⟩

/-- What is wrong with a node is what its shape is refused for. -/
theorem misshapes_of_shape (refused : node.shape = .error fault) :
    NodeFault.Misshapes node.toValue fault := by
  -- The number of shapes comes first: none, one, or several; only a single one is looked at.
  unfold Node.shape at refused
  split at refused
  · rename_i none_
    cases refused
    exact .noShape none_
  · rename_i only alone
    split at refused
    · rename_i wrong
      cases refused
      cases only with
      | leaf => exact misshapes_of_leafFault alone wrong
      | all => exact misshapes_of_shapeFault alone (.inl rfl) wrong
      | any => exact misshapes_of_shapeFault alone (.inr rfl) wrong
      | not => exact nomatch wrong
    · exact nomatch refused
  · rename_i noShape notAlone
    cases refused
    refine .severalShapes ?_
    show 1 < node.shapes.length
    match several : node.shapes with
    | [] => exact absurd several noShape
    | [only] => exact absurd several (notAlone only)
    | _ :: _ :: _ => simp

/-- A leaf with nothing wrong has an operator, and its field unless it asks for references. -/
theorem operator_of_leafFault (sound : node.leafFault? = none) :
    isOperator node.relation = true ∧
      (node.field.isNull = true → node.relation = .operator .references) := by
  -- A leaf without a fault has an operator, and without a field it asks for references.
  unfold leafFault? at sound
  split at sound
  · exact nomatch sound
  · rename_i known given
    refine ⟨by rw [given]; rfl, fun missing => ?_⟩
    rw [missing] at sound
    by_cases references : known = .references
    · rw [given, references]
    · simp [references] at sound
  · rename_i word given
    refine ⟨by rw [given]; rfl, fun missing => ?_⟩
    rw [if_pos missing] at sound
    exact nomatch sound
  · exact nomatch sound

/-- Nothing is wrong with a node that has a shape. -/
theorem not_misshapes_of_shapes (alone : node.shapes = [shape])
    (sound : node.shapeFault? shape = none) : ¬NodeFault.Misshapes node.toValue fault := by
  have given : node.toValue.givenShapes = [shape] := alone
  intro wrong
  cases wrong with
  | noShape none_ => exact nomatch given.symm.trans none_
  | severalShapes several => simp [given] at several
  | noOperator leaf missing =>
    cases given.symm.trans leaf
    have operator := (operator_of_leafFault sound).1
    cases relation : node.relation with
    | null =>
      rw [relation] at operator
      exact nomatch operator
    | _ =>
      rw [show node.toValue.operatorPart = node.relation from rfl, relation] at missing
      exact nomatch missing
  | operatorNotText leaf there other =>
    cases given.symm.trans leaf
    exact nomatch (operator_of_leafFault sound).1.symm.trans other
  | fieldMissing leaf operator missing needed =>
    cases given.symm.trans leaf
    exact needed ((operator_of_leafFault sound).2 missing)
  | @childrenNotList other held joins has notList =>
    -- The part of a combinator that is there makes it the only shape, and then it is a list.
    have only := mem_shapes_of_partOf? has
    rw [alone, List.mem_singleton] at only
    rw [← only, shapeFault?_eq joins has, notList] at sound
    exact nomatch sound

/-- What is wrong with a value that is a node is wrong with its shape. -/
theorem misshapes_of_ofNode (wrong : NodeFault.OfNode node.toValue fault) :
    NodeFault.Misshapes node.toValue fault := by
  -- What is a node cannot be blamed for being none.
  generalize same : node.toValue = value at wrong ⊢
  cases wrong with
  | notNode other =>
    rw [← same] at other
    exact nomatch other
  | misshapen wrong => exact wrong

end Node

end ContentQuery
