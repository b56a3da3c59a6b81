import ContentQuery.Proofs.Compilation

/-! The dictionary form of filters: which maps are read as nodes, and how deep the nodes nest. -/

namespace ContentQuery.Node

section Grammar

variable (entries : List (Value × Value))

/-- The entry of a map under a name, or null where there is none. -/
def part (name : String) : Value :=
  (Value.lookup? name entries).getD .null

/-- The shapes a map speaks for: a leaf by its field or operator, the others by their own keys. -/
def givenShapes : List Shape :=
  (if (part entries "field").isNull && (part entries "operator").isNull then [] else [.leaf])
    ++ [Shape.all, .any, .not].filter fun shape => (Value.lookup? shape.word entries).isSome

/-- Whether a value may stand in the operator's place of a leaf. -/
def isOperator : Value → Bool
  | .text _ | .operator _ => true
  | _ => false

/-- Whether an operator, or the word for one, asks for references. -/
def asksForReferences : Value → Bool
  | .text word => word == Operator.references.symbol
  | .operator known => known = .references
  | _ => false

/-- A map is a leaf when its operator is a word or an operator, and it has the field it needs. -/
structure IsLeaf : Prop where
  shape : givenShapes entries = [.leaf]
  operator : isOperator (part entries "operator") = true
  /-- Only references can be asked for without a field. -/
  field : (part entries "field").isNull = true → asksForReferences (part entries "operator") = true

end Grammar

/-- The maps that are filter nodes, with everything below them. -/
inductive IsFilter : Value → Prop
  | leaf {entries : List (Value × Value)} (keys : ∀ entry ∈ entries, isKey entry.1 = true)
    (leaf : IsLeaf entries) : IsFilter (.map entries)
  | joined {entries : List (Value × Value)} {shape : Shape} {items : List Value}
    (keys : ∀ entry ∈ entries, isKey entry.1 = true) (joins : shape = .all ∨ shape = .any)
    (only : givenShapes entries = [shape])
    (held : Value.lookup? shape.word entries = some (.list items) ∨
      Value.lookup? shape.word entries = some (.tuple items))
    (each : ∀ item ∈ items, IsFilter item) : IsFilter (.map entries)
  | negated {entries : List (Value × Value)} {inner : Value}
    (keys : ∀ entry ∈ entries, isKey entry.1 = true) (only : givenShapes entries = [.not])
    (held : Value.lookup? Shape.not.word entries = some inner) (inside : IsFilter inner) :
    IsFilter (.map entries)

mutual

/-- The number of levels on which a map, read as a filter node, has nodes. -/
def levels : Value → Nat
  | .map entries =>
    1 + max (levelsUnder .not entries) (max (levelsUnder .all entries) (levelsUnder .any entries))
  | _ => 0
termination_by structural input => input

/-- The number of levels below the key of a combinator. -/
def levelsUnder (shape : Shape) : List (Value × Value) → Nat
  | [] => 0
  | (key, value) :: rest =>
    if keyText? key = some shape.word then
      if shape = .not then levels value else levelsWithin value
    else levelsUnder shape rest
termination_by structural input => input

/-- The number of levels in a list or a tuple of nodes. -/
def levelsWithin : Value → Nat
  | .list items => deepest items
  | .tuple items => deepest items
  | _ => 0
termination_by structural input => input

/-- The largest number of levels that one of several nodes has. -/
def deepest : List Value → Nat
  | [] => 0
  | item :: rest => max (levels item) (deepest rest)
termination_by structural input => input

end

mutual

/-- Whether a value holds no node that was built before, in maps, lists and tuples. -/
def isRaw : Value → Bool
  | .map entries => entriesRaw entries
  | .list items => allRaw items
  | .tuple items => allRaw items
  | .node _ _ _ _ _ _ => false
  | _ => true
termination_by structural input => input

/-- Whether the entries of a map hold no node that was built before. -/
def entriesRaw : List (Value × Value) → Bool
  | [] => true
  | (_, value) :: rest => isRaw value && entriesRaw rest
termination_by structural input => input

/-- Whether items hold no node that was built before. -/
def allRaw : List Value → Bool
  | [] => true
  | item :: rest => isRaw item && allRaw rest
termination_by structural input => input

end

/-- Several nodes have as many levels as the deepest of them. -/
theorem deepest_le {items : List Value} {bound : Nat} :
    deepest items ≤ bound ↔ ∀ item ∈ items, levels item ≤ bound := by
  induction items with
  | nil => simp [deepest]
  | cons item rest ih => simp only [deepest, Nat.max_le, ih, List.forall_mem_cons]

/-- No level lies below a key that a map does not have. -/
theorem levelsUnder_absent {shape : Shape} {entries : List (Value × Value)}
    (absent : Value.lookup? shape.word entries = none) : levelsUnder shape entries = 0 := by
  -- By induction on the entries: none of them is named like the shape.
  induction entries with
  | nil => rfl
  | cons entry rest ih =>
    rw [Value.lookup?_cons] at absent
    unfold levelsUnder
    split
    · rename_i named
      rw [if_pos named] at absent
      exact nomatch absent
    · rename_i unnamed
      rw [if_neg unnamed] at absent
      exact ih absent

/-- The levels below a key are those of the value under the key. -/
theorem levelsUnder_held {shape : Shape} {entries : List (Value × Value)} {value : Value}
    (held : Value.lookup? shape.word entries = some value) :
    levelsUnder shape entries = if shape = .not then levels value else levelsWithin value := by
  -- By induction on the entries: the first that is named like the shape counts, as it does in
  -- `lookup?`.
  induction entries with
  | nil => exact nomatch held
  | cons entry rest ih =>
    rw [Value.lookup?_cons] at held
    unfold levelsUnder
    split
    · rename_i named
      rw [if_pos named] at held
      rw [Option.some.inj held]
    · rename_i unnamed
      rw [if_neg unnamed] at held
      exact ih held

/-- The levels below a list or a tuple of nodes are those of the deepest node. -/
theorem levelsUnder_joined {shape : Shape} {entries : List (Value × Value)} {items : List Value}
    (joins : shape = .all ∨ shape = .any)
    (held : Value.lookup? shape.word entries = some (.list items) ∨
      Value.lookup? shape.word entries = some (.tuple items)) :
    levelsUnder shape entries = deepest items := by
  have joint : shape ≠ .not := by rcases joins with rfl | rfl <;> exact nofun
  rcases held with held | held <;> rw [levelsUnder_held held, if_neg joint] <;> rfl

section Shapes

variable {entries : List (Value × Value)} {shape : Shape}

/-- A map with one shape has the key of no other combinator. -/
theorem absent_of_only (only : givenShapes entries = [shape]) {other : Shape}
    (combinator : other ∈ [Shape.all, .any, .not]) (apart : other ≠ shape) :
    Value.lookup? other.word entries = none := by
  cases found : Value.lookup? other.word entries with
  | none => rfl
  | some value =>
    -- A key that is there would give the map a shape.
    have given : other ∈ givenShapes entries :=
      List.mem_append_right _ (List.mem_filter.mpr ⟨combinator, by rw [found]; rfl⟩)
    rw [only, List.mem_singleton] at given
    exact absurd given apart

/-- A map with one shape has the key of that combinator. -/
theorem held_of_only (only : givenShapes entries = [shape])
    (combinator : shape ∈ [Shape.all, .any, .not]) :
    ∃ value, Value.lookup? shape.word entries = some value := by
  -- A combinator is among the shapes of the map because its word is among the keys.
  have given : shape ∈ givenShapes entries := by rw [only]; exact List.mem_singleton_self shape
  rcases List.mem_append.mp given with leaf | own
  · have none_ : shape = .leaf := by
      split at leaf
      · exact nomatch leaf
      · exact List.mem_singleton.mp leaf
    subst none_
    simp at combinator
  · exact Option.isSome_iff_exists.mp (List.mem_filter.mp own).2

/-- A leaf has one level. -/
theorem levels_leaf (only : givenShapes entries = [.leaf]) : levels (.map entries) = 1 := by
  -- A leaf holds no other shape, so that nothing lies under any of the three words.
  have noNegation : levelsUnder .not entries = 0 :=
    levelsUnder_absent (absent_of_only only (by simp) nofun)
  have noConjunction : levelsUnder .all entries = 0 :=
    levelsUnder_absent (absent_of_only only (by simp) nofun)
  have noDisjunction : levelsUnder .any entries = 0 :=
    levelsUnder_absent (absent_of_only only (by simp) nofun)
  rw [levels, noNegation, noConjunction, noDisjunction]
  rfl

/-- A negation has one level more than what it negates. -/
theorem levels_negated {inner : Value} (only : givenShapes entries = [.not])
    (held : Value.lookup? Shape.not.word entries = some inner) :
    levels (.map entries) = 1 + levels inner := by
  -- The negation is the only shape, so that what it holds is all that lies below.
  have noConjunction : levelsUnder .all entries = 0 :=
    levelsUnder_absent (absent_of_only only (by simp) nofun)
  have noDisjunction : levelsUnder .any entries = 0 :=
    levelsUnder_absent (absent_of_only only (by simp) nofun)
  rw [levels, noConjunction, noDisjunction, levelsUnder_held held]
  simp

/-- A conjunction or disjunction has one level more than the deepest node it joins. -/
theorem levels_joined {items : List Value} (joins : shape = .all ∨ shape = .any)
    (only : givenShapes entries = [shape])
    (held : Value.lookup? shape.word entries = some (.list items) ∨
      Value.lookup? shape.word entries = some (.tuple items)) :
    levels (.map entries) = 1 + deepest items := by
  have below := levelsUnder_joined joins held
  have noNegation : levelsUnder .not entries = 0 := by
    refine levelsUnder_absent (absent_of_only only (by simp) ?_)
    rcases joins with rfl | rfl <;> exact nofun
  -- The other of the two combinators is absent, whichever of them joins.
  rcases joins with rfl | rfl
  · have noDisjunction : levelsUnder .any entries = 0 :=
      levelsUnder_absent (absent_of_only only (by simp) nofun)
    rw [levels, noNegation, noDisjunction, below]
    simp
  · have noConjunction : levelsUnder .all entries = 0 :=
      levelsUnder_absent (absent_of_only only (by simp) nofun)
    rw [levels, noNegation, noConjunction, below]
    simp

end Shapes

end ContentQuery.Node
