import ContentQuery.Proofs.ConditionFaults

/-! Structural refusals of conditions and of dictionary filters point at the offending node. -/

namespace ContentQuery

/-- A fault blames a node of data at a position, where it is one of structure. -/
def Fault.BlamesWithin (limit : DepthLimit) (fault : Fault) (position : Position) (data : Value) :
    Prop :=
  fault.isStructural = true → ∃ place : Place, place.LedTo position data ∧
    fault.Blames limit NodeFault.OfMap (place.position.steps.length + 1) place

/-- A fault blames a node in one of several children, where it is one of structure. -/
def Fault.BlamesAmong (limit : DepthLimit) (fault : Fault) (position : Position) (shape : Shape)
    (index : Nat) (items : List Value) : Prop :=
  fault.isStructural = true → ∃ place : Place,
    place.LedToAmong position (Step.child shape) index items ∧
    fault.Blames limit NodeFault.OfMap (place.position.steps.length + 1) place

/-- A fault that blames a node of one of the children blames a node of what has them. -/
theorem Fault.BlamesAmong.below {limit : DepthLimit} {fault : Fault} {position : Position}
    {shape : Shape} {items : List Value} {data held : Value}
    (blames : fault.BlamesAmong limit position shape 0 items)
    (joins : shape = .all ∨ shape = .any) (has : data.partOf? shape = some held)
    (listed : held.listed? = some items) : fault.BlamesWithin limit position data := by
  -- The step into the list is put in front of those that lead to the place.
  intro structural
  obtain ⟨place, led, blames⟩ := blames structural
  exact ⟨place, led.below (Step.isNodeStep_child shape) (Value.below?_child joins has listed),
    blames⟩

namespace Node

variable {limit : DepthLimit} {position : Position} {entries : List (Value × Value)}

/-- A fault that blames the data itself blames a node of it. -/
theorem blamesWithin_self {fault : Fault} {data : Value}
    (blames : fault.isStructural = true →
      fault.Blames limit NodeFault.OfMap (position.steps.length + 1) ⟨position, data⟩) :
    fault.BlamesWithin limit position data :=
  fun structural => ⟨⟨position, data⟩, Place.ledTo_self, blames structural⟩

/-- The texts of keys are the keys. -/
theorem map_text_of_keyTexts {keys : List Value} {names : List String}
    (read : keys.mapM keyText? = some names) : names.map Value.text = keys := by
  -- Every key was read as its text, in order.
  induction keys generalizing names with
  | nil =>
    cases read
    rfl
  | cons key rest ih =>
    rw [List.mapM_cons] at read
    obtain ⟨name, named, read⟩ := Option.bind_eq_some_iff.mp read
    obtain ⟨others, later, read⟩ := Option.bind_eq_some_iff.mp read
    cases read
    cases key with
    | text word =>
      cases named
      rw [List.map_cons, ih later]
    | _ => exact nomatch named

/-- Keys that no node has are what a map is refused for. -/
theorem blames_of_checkKeys {fault : Fault} (refused : checkKeys position entries = .error fault)
    (structural : fault.isStructural = true) :
    fault.Blames limit NodeFault.OfMap (position.steps.length + 1) ⟨position, .map entries⟩ := by
  -- The keys that are not known are named in the fault, sorted; the keys themselves are the same.
  unfold checkKeys at refused
  split at refused
  · exact nomatch refused
  · rename_i unknown present
    split at refused
    · cases refused
      exact nomatch structural
    · rename_i names read
      cases refused
      have texts := map_text_of_keyTexts read
      have sorted := List.mergeSort_perm names fun left right => decide (left ≤ right)
      refine .malformed (.unknownKeys ?_ ?_)
      · intro empty
        rw [empty] at sorted
        rw [List.nil_perm.mp sorted] at texts
        exact present texts.symm
      · rw [← texts]
        exact sorted.map Value.text

/-- What stands for a combinator of a map is there when its key is, and then it is a list. -/
theorem listed_of_childrenOf {level : Nat} {shape : Shape} {given : Value}
    (read : childrenOf limit level position shape entries = .ok given) :
    given.isNull = (Value.lookup? shape.word entries).isNone ∧
      (given.isNull = false → given.listed?.isSome = true) := by
  -- What is read as children was a list or a tuple, or there was nothing to read.
  rw [childrenOf_eq] at read
  cases held : Value.lookup? shape.word entries with
  | none =>
    rw [held] at read
    cases read
    exact ⟨rfl, nofun⟩
  | some value =>
    rw [held] at read
    cases value with
    | list items =>
      obtain ⟨nodes, -, made⟩ := ok_of_bind read
      cases made
      exact ⟨rfl, fun _ => rfl⟩
    | tuple items =>
      obtain ⟨nodes, -, made⟩ := ok_of_bind read
      cases made
      exact ⟨rfl, fun _ => rfl⟩
    | _ => exact nomatch read

/-- What stands for the negation of a map is there when its key is. -/
theorem isNull_of_negatedOf {level : Nat} {given : Value}
    (read : negatedOf limit level position entries = .ok given) :
    given.isNull = (Value.lookup? Shape.not.word entries).isNone := by
  -- What is read as a negation is a node, and no node is null.
  rw [negatedOf_eq] at read
  cases held : Value.lookup? Shape.not.word entries with
  | none =>
    rw [held] at read
    cases read
    rfl
  | some inner =>
    rw [held] at read
    obtain ⟨node, rfl⟩ := exists_node_of_ofDictionary read
    rfl

/-- What is wrong with the node made of a map is wrong with the map, if its children are lists. -/
theorem misshapes_of_made {node : Node} {defect : NodeFault}
    (shapes : node.shapes = givenShapes entries) (field : node.field = part entries "field")
    (operator : node.relation = (part entries "operator").relationOf)
    (listed : ∀ shape held, shape = .all ∨ shape = .any → node.toValue.partOf? shape = some held →
      held.listed?.isSome = true) (wrong : NodeFault.Misshapes node.toValue defect) :
    NodeFault.Misshapes (.map entries) defect := by
  -- The map and the node that is made of it have the same shapes, field and operator, which is all
  -- that a defect of a leaf is about.
  have shapes : node.toValue.givenShapes = (Value.map entries).givenShapes := shapes
  have field : node.toValue.fieldPart = (Value.map entries).fieldPart := field
  have operator : node.toValue.operatorPart = (Value.map entries).operatorPart := operator
  cases wrong with
  | noShape none_ => exact .noShape (shapes.symm.trans none_)
  | severalShapes several =>
    rw [shapes] at several ⊢
    exact .severalShapes several
  | noOperator leaf missing =>
    rw [shapes] at leaf
    rw [operator] at missing
    rw [field]
    exact .noOperator leaf missing
  | operatorNotText leaf there other =>
    rw [shapes] at leaf
    rw [operator] at there other ⊢
    exact .operatorNotText leaf there other
  | fieldMissing leaf known missing needed =>
    rw [shapes] at leaf
    rw [field] at missing
    rw [operator] at known needed ⊢
    exact .fieldMissing leaf known missing needed
  | childrenNotList joins has other =>
    -- Children were read from a list, so that the node holds one.
    have there := listed _ _ joins has
    rw [other] at there
    exact nomatch there

/-- Children that are lists where they are there are lists as the parts of a node. -/
theorem listed_of_parts {node : Node}
    (listedAll : node.all.isNull = false → node.all.listed?.isSome = true)
    (listedAny : node.any.isNull = false → node.any.listed?.isSome = true) (shape : Shape)
    (held : Value) (joins : shape = .all ∨ shape = .any)
    (has : node.toValue.partOf? shape = some held) : held.listed?.isSome = true := by
  rcases joins with rfl | rfl
  · obtain ⟨there, rfl⟩ := Value.ite_isNull_eq_some.mp has
    exact listedAll there
  · obtain ⟨there, rfl⟩ := Value.ite_isNull_eq_some.mp has
    exact listedAny there

-- By induction on the data, with the levels above allowed as where conditions are read. The order
-- in which the parts of a map are read does not matter: each refusal finds a node by itself.
mutual

/-- A refusal of data blames a node of it. -/
theorem blames_ofDictionary (data : Value) {level : Nat} {position : Position} {fault : Fault}
    (counted : position.steps.length + 1 = level)
    (above : ∀ upper, 1 ≤ upper → upper < level → limit.Allows upper)
    (refused : ofDictionary limit level position data = .error fault) :
    fault.BlamesWithin limit position data := by
  -- The steps of the reading are taken in turn, and the first that fails is blamed.
  subst counted
  cases data with
  | map entries =>
    unfold ofDictionary at refused
    rcases error_of_bind refused with deep | ⟨_, checked, refused⟩
    · exact blamesWithin_self (Nesting.blames_of_checkDepth above deep)
    have reached := Nesting.above_succ above (Nesting.allows_of_checkDepth checked)
    rcases error_of_bind refused with unknown | ⟨_, keys, refused⟩
    · exact blamesWithin_self (blames_of_checkKeys unknown)
    rcases error_of_bind refused with refused | ⟨negated, inside, refused⟩
    · exact blames_negatedOf entries rfl reached refused rfl
    rcases error_of_bind refused with refused | ⟨all, conjuncts, refused⟩
    · exact blames_childrenOf entries rfl reached refused (.inl rfl) rfl
    rcases error_of_bind refused with refused | ⟨any, disjuncts, refused⟩
    · exact blames_childrenOf entries rfl reached refused (.inr rfl) rfl
    rcases error_of_bind refused with refused | ⟨shape, _, made⟩
    · obtain ⟨defect, wrong, rfl⟩ := exists_of_shapeAt refused
      refine blamesWithin_self fun _ => .malformed (.misshapen ?_)
      -- All parts of the map have been read, so that the node has the shapes of the map.
      obtain ⟨noAll, listedAll⟩ := listed_of_childrenOf conjuncts
      obtain ⟨noAny, listedAny⟩ := listed_of_childrenOf disjuncts
      have shapes := shapes_eq noAll noAny (isNull_of_negatedOf inside)
      exact misshapes_of_made shapes rfl rfl (listed_of_parts listedAll listedAny)
        (misshapes_of_shape wrong)
    · exact nomatch made
  | node field relation value all any negated =>
    rcases error_of_bind refused with deep | ⟨_, _, made⟩
    · exact blamesWithin_self (Nesting.blames_of_checkDepth above deep)
    · exact nomatch made
  | _ =>
    rcases error_of_bind refused with deep | ⟨_, _, other⟩
    · exact blamesWithin_self (Nesting.blames_of_checkDepth above deep)
    · cases other
      exact blamesWithin_self fun _ => .malformed (.notMap nofun rfl)
termination_by structural data

/-- A refusal of the negation of a map blames a node below the map. -/
theorem blames_negatedOf (entries : List (Value × Value)) {level : Nat} {position : Position}
    {fault : Fault} {data : Value} (counted : position.steps.length + 2 = level)
    (above : ∀ upper, 1 ≤ upper → upper < level → limit.Allows upper)
    (refused : negatedOf limit level position entries = .error fault)
    (holds : data.partOf? .not = Value.lookup? Shape.not.word entries) :
    fault.BlamesWithin limit position data := by
  -- The entry of the name is found in step with the look-up, and the fault is one of what it holds.
  match entries with
  | [] => exact nomatch refused
  | (key, value) :: rest =>
    rw [Value.lookup?_cons] at holds
    unfold negatedOf at refused
    split at refused
    · rename_i named
      rw [if_pos named] at holds
      intro structural
      obtain ⟨place, led, blames⟩ := blames_ofDictionary value
        ((congrArg (· + 1) (position.length_down _)).trans counted) above refused structural
      have isStep : Step.negated.isNodeStep = true := rfl
      exact ⟨place, led.below isStep holds, blames⟩
    · rename_i unnamed
      rw [if_neg unnamed] at holds
      exact blames_negatedOf rest counted above refused holds
termination_by structural entries

/-- A refusal of the children under a key blames the map that has it, or a node below the map. -/
theorem blames_childrenOf (entries : List (Value × Value)) {level : Nat} {position : Position}
    {shape : Shape} {fault : Fault} {whole : List (Value × Value)}
    (counted : position.steps.length + 2 = level)
    (above : ∀ upper, 1 ≤ upper → upper < level → limit.Allows upper)
    (refused : childrenOf limit level position shape entries = .error fault)
    (joins : shape = .all ∨ shape = .any)
    (holds : (Value.map whole).partOf? shape = Value.lookup? shape.word entries) :
    fault.BlamesWithin limit position (.map whole) := by
  -- As for a negation, with a list of children under the name.
  match entries with
  | [] => exact nomatch refused
  | (key, value) :: rest =>
    rw [Value.lookup?_cons] at holds
    unfold childrenOf at refused
    split at refused
    · rename_i named
      rw [if_pos named] at holds
      exact blames_childrenIn value counted above refused joins holds
    · rename_i unnamed
      rw [if_neg unnamed] at holds
      exact blames_childrenOf rest counted above refused joins holds
termination_by structural entries

/-- A refusal of children blames the map that has them, or a node below the map. -/
theorem blames_childrenIn (children : Value) {level : Nat} {position : Position} {shape : Shape}
    {fault : Fault} {whole : List (Value × Value)} (counted : position.steps.length + 2 = level)
    (above : ∀ upper, 1 ≤ upper → upper < level → limit.Allows upper)
    (refused : childrenIn limit level position shape children = .error fault)
    (joins : shape = .all ∨ shape = .any)
    (has : (Value.map whole).partOf? shape = some children) :
    fault.BlamesWithin limit position (.map whole) := by
  -- Children in a list are blamed one by one; anything else is the defect of the map itself.
  cases children with
  | list items =>
    rcases error_of_bind refused with refused | ⟨_, _, made⟩
    · exact (blames_itemsOf items counted above refused).below joins has rfl
    · exact nomatch made
  | tuple items =>
    rcases error_of_bind refused with refused | ⟨_, _, made⟩
    · exact (blames_itemsOf items counted above refused).below joins has rfl
    · exact nomatch made
  | _ =>
    cases refused
    exact blamesWithin_self fun _ => .malformed (.misshapen (.childrenNotList joins has rfl))
termination_by structural children

/-- A refusal of items in a row blames a node of one of them. -/
theorem blames_itemsOf (items : List Value) {level : Nat} {position : Position} {shape : Shape}
    {index : Nat} {fault : Fault} (counted : position.steps.length + 2 = level)
    (above : ∀ upper, 1 ≤ upper → upper < level → limit.Allows upper)
    (refused : itemsOf limit level position shape index items = .error fault) :
    fault.BlamesAmong limit position shape index items := by
  -- The first item that is refused is blamed, and those before it were read.
  match items with
  | [] => exact nomatch refused
  | item :: rest =>
    intro structural
    rcases error_of_bind refused with refused | ⟨_, _, refused⟩
    · obtain ⟨place, led, blames⟩ := blames_ofDictionary item
        ((congrArg (· + 1) (position.length_down _)).trans counted) above refused structural
      exact ⟨place, ⟨0, item, rfl, led⟩, blames⟩
    rcases error_of_bind refused with refused | ⟨_, _, made⟩
    · obtain ⟨place, led, blames⟩ := blames_itemsOf rest counted above refused structural
      exact ⟨place, led.cons, blames⟩
    · exact nomatch made
termination_by structural items

end

end Node

/-- What a fault says leads from a root to a node that it blames on a level. -/
structure Fault.PointsAt (limit : DepthLimit) (wrong : Value → NodeFault → Prop) (fault : Fault)
    (root : String) (steps : List Step) (level : Nat) (node : Value) : Prop where
  tells : ∃ text, fault.detail? = some (.position text) ∧
    Position.stepsAfter root text = some steps
  blames : fault.Blames limit wrong level ⟨⟨root, steps⟩, node⟩
  /-- What is too deep stands one level below as many levels as the limit allows. -/
  below : ∀ count, limit = .levels count → fault.family? = some .filterDepth →
    level = count.toNat + 1

/-- A fault that blames a place points at it. -/
theorem Fault.Blames.pointsAt {limit : DepthLimit} {wrong : Value → NodeFault → Prop}
    {fault : Fault} {root : String} {steps : List Step} {level : Nat} {node : Value}
    (blames : fault.Blames limit wrong level ⟨⟨root, steps⟩, node⟩)
    (structural : ∀ step ∈ steps, step.isNodeStep = true)
    (named : root.toList ≠ [] ∨ steps ≠ []) (positive : 1 ≤ level) :
    fault.PointsAt limit wrong root steps level node := by
  -- The text of the position is read back as the steps, which lead to the node that is blamed.
  have read : Position.stepsAfter root (Position.text ⟨root, steps⟩) = some steps :=
    @Position.stepsAfter_text ⟨root, steps⟩ structural
  refine ⟨⟨_, blames.detail_eq (Position.isEmpty_text structural named), read⟩, blames, ?_⟩
  rintro count rfl deep
  cases blames with
  | malformed => exact nomatch deep
  | tooDeep first => exact first.eq_succ positive

/--
Every structural refusal points at the node that it is about.

The path of a refusal, read as steps from the root, leads to a node of the input that is malformed
in the way that the refusal names, or that stands one level below the limit. Where conditions are
checked, all nodes before it in pre-order are well-formed and within the limit.
-/
theorem structural_faults_point_at_nodes {limit : DepthLimit} {fault : Fault}
    (structural : fault.isStructural = true) :
    (∀ (root : String) (items : List Value), Condition.readAll limit root items = .error fault →
      ∃ steps node before after, Value.followAmong steps items = some node ∧
        fault.PointsAt limit NodeFault.OfNode root steps steps.length node ∧
        Place.preorderAmong (.top root) .item 0 items = before ++ ⟨⟨root, steps⟩, node⟩ :: after ∧
        ∀ earlier ∈ before, earlier.IsSound limit) ∧
    ∀ data : Value, Node.ofDictionary limit 1 (.top "filter") data = .error fault →
      ∃ steps node, data.follow steps = some node ∧
        fault.PointsAt limit NodeFault.OfMap "filter" steps (steps.length + 1) node := by
  have first : ∀ upper, 1 ≤ upper → upper < 1 → limit.Allows upper := by omega
  constructor
  · intro root items refused
    have surveys : Surveys limit (Condition.readItems limit 1 (.top root) .item 0 items)
        (Place.preorderAmong (.top root) .item 0 items) :=
      Condition.surveys_readItems items rfl first
    unfold Condition.readAll at refused
    rw [refused] at surveys
    obtain ⟨before, place, after, split, earlier, blames⟩ := surveys structural
    -- The place is among those of the items, and so steps lead to it.
    have member : place ∈ Place.preorderAmong (.top root) .item 0 items := by
      rw [split]
      exact List.mem_append_right _ List.mem_cons_self
    obtain ⟨offset, item, there, steps, stands, each, reached⟩ :=
      Place.ledToAmong_of_mem_preorderAmong items member
    obtain ⟨position, node⟩ := place
    obtain rfl : position = ⟨root, .item offset :: steps⟩ := by
      rw [Nat.zero_add] at stands
      exact stands
    refine ⟨.item offset :: steps, node, before, after, ?_, blames.pointsAt ?_ (.inr nofun) ?_,
      split, earlier⟩
    · rw [Value.followAmong, there]
      exact reached
    · exact List.forall_mem_cons.mpr ⟨rfl, each⟩
    · exact Nat.succ_pos _
  · intro data refused
    have blames : fault.BlamesWithin limit (.top "filter") data :=
      Node.blames_ofDictionary data rfl first refused
    obtain ⟨place, ⟨steps, stands, each, reached⟩, blames⟩ := blames structural
    obtain ⟨position, node⟩ := place
    obtain rfl : position = ⟨"filter", steps⟩ := stands
    exact ⟨steps, node, reached, blames.pointsAt each (.inl (by decide)) (Nat.succ_pos _)⟩

/-- A disjunction in the second conjunct of the second condition, with a node without a shape. -/
def shapelessBelow : List Value :=
  let leaf := Value.leaf (.text "views") (.text ">") (.int 3)
  let disjunction := Value.node .null .null .null .null (.list [.node .null .null .null .null
    .null .null]) .null
  [leaf, .node .null .null .null (.list [leaf, disjunction]) .null .null]

/-- A node without a shape is pointed at, and so is what stands below a limit of one level. -/
theorem structural_faults_point_at_nodes_nested :
    (∃ steps node before after, Value.followAmong steps shapelessBelow = some node ∧
      (Fault.malformed .noShape ⟨"filter", [.item 1, .all 1, .any 0]⟩).PointsAt (.levels 10)
        NodeFault.OfNode "filter" steps steps.length node ∧
      Place.preorderAmong (.top "filter") .item 0 shapelessBelow =
        before ++ ⟨⟨"filter", steps⟩, node⟩ :: after ∧
      ∀ earlier ∈ before, earlier.IsSound (.levels 10)) ∧
    ∃ steps node, (Value.map [(.text "not", .map [])]).follow steps = some node ∧
      (Fault.tooDeep .filter (.levels 1) ⟨"filter", [.negated]⟩).PointsAt (.levels 1)
        NodeFault.OfMap "filter" steps (steps.length + 1) node :=
  ⟨(structural_faults_point_at_nodes rfl).1 "filter" shapelessBelow rfl,
    (structural_faults_point_at_nodes rfl).2 (.map [(.text "not", .map [])]) rfl⟩

end ContentQuery
