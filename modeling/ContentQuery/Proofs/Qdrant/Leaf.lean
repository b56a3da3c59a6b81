import ContentQuery.Proofs.Pruning
import ContentQuery.Qdrant.Filter

/-! Leaves: what they are converted to, and the one notice that a dropped leaf leaves. -/

namespace ContentQuery.Qdrant

open Compile (Ensures)

/-- A clause, made or not, is not dropped. -/
def Whole (result : Except BoundFault Converted) : Prop :=
  ∀ given, result = .ok given → given ≠ .dropped

/-- A clause that is made out of something is one. -/
theorem whole_clause {α : Type} (first : Except BoundFault α) (make : α → Clause) :
    Whole (do return .clause (make (← first))) := by
  intro given made
  obtain ⟨between, -, same⟩ := ok_of_bind made
  cases same
  exact nofun

/-- Containment of every item is a clause, unless there are no items. -/
theorem whole_containsEvery (key : String) (value : Value) : Whole (containsEvery key value) := by
  intro given made
  obtain ⟨clauses, -, same⟩ := ok_of_bind made
  split at same <;> cases same <;> exact nofun

/-- What a payload key is compared with makes a clause, or constrains nothing. -/
theorem whole_keyClause (key : String) (operator : Operator) (value : Value) :
    Whole (keyClause key operator value) := by
  -- Only containment of every item may constrain nothing, and existence needs no literal.
  cases operator with
  | containsAll => exact whole_containsEvery key value
  | defined | undefined | startsWith | endsWith | references =>
    rintro given ⟨⟩
    exact nofun
  | equal | notEqual | greater | atLeast | less | atMost | oneOf | noneOf | contains
  | containsAny | «matches» => exact whole_clause _ _

/-- A leaf is converted without a notice, or dropped with one about it. -/
def LeafOutcome (field : Value) (comparison : Comparison) (result : Converted)
    (notices : List Notice) : Prop :=
  (result ≠ .dropped ∧ notices = []) ∨
    (result = .dropped ∧ ∃ notice, NamesLeaf field comparison notice ∧ notices = [notice])

/-- Without a notice, a leaf was not dropped. -/
theorem LeafOutcome.kept {field : Value} {comparison : Comparison} {result : Converted}
    {notices : List Notice} (outcome : LeafOutcome field comparison result notices)
    (silent : notices = []) : result ≠ .dropped := by
  rcases outcome with ⟨there, -⟩ | ⟨-, notice, -, same⟩
  · exact there
  · exact nomatch silent.symm.trans same

/-- A leaf that is dropped leaves the notice it is dropped with. -/
theorem ensures_leafDropped {reason : Reason} {message word : String} {field : Value}
    {comparison : Comparison} (same : word = comparison.word)
    (about : reason ∈ [.unsupportedOperator, .invalidField, .invalidValue]) :
    Ensures (do Compile.degrade reason message field (.text word); return Converted.dropped)
      (LeafOutcome field comparison) := by
  subst same
  refine Or.inr ⟨_, _, (Compile.gives_degrade _ _ _ _).bind (Compile.gives_pure _), ?_⟩
  exact Or.inr ⟨rfl, _, ⟨rfl, rfl, about⟩, rfl⟩

/-- A literal that no clause can carry drops its leaf with a notice. -/
theorem ensures_orNotice {field : Value} {operator : Operator}
    {result : Except BoundFault Converted} (whole : Whole result) :
    (orNotice field operator result).Ensures (LeafOutcome field (.known operator)) := by
  -- Numbers that are out of range or too long refuse the query, and all other faults drop the leaf.
  cases result with
  | ok converted => exact .pure (Or.inl ⟨whole converted rfl, rfl⟩)
  | error fault =>
    cases fault with
    | unsuited fault =>
      have noted : (dropInvalidValue field operator fault).Ensures fun _ notices =>
          ∃ notice, NamesLeaf field (.known operator) notice ∧ notices = [notice] :=
        Ensures.dropInvalidValue fun _ _ => ⟨_, ⟨rfl, rfl, by simp⟩, rfl⟩
      exact noted.bind fun _ _ named => .pure (Or.inr ⟨rfl, by simpa using named⟩)
    | overflow => exact .refuse

/-- A comparison is dropped with a notice only. -/
theorem ensures_convertComparison (payloadPrefix : Value) (path : String) (operator : Operator)
    (value : Value) :
    (convertComparison payloadPrefix path operator value).Ensures
      (LeafOutcome (.text path) (.known operator)) := by
  unfold convertComparison
  -- The identifier of a point is compared by a clause of its own.
  split
  · split
    · rename_i result _
      refine ensures_orNotice fun given made => ?_
      cases result with
      | error fault => exact nomatch made
      | ok clause =>
        cases made
        exact nofun
    · exact ensures_leafDropped rfl (by simp)
  · exact ensures_orNotice (whole_keyClause _ operator value)

/-- A leaf is dropped with a notice only. -/
theorem ensures_convertLeaf (payloadPrefix field : Value) (comparison : Comparison)
    (value : Value) :
    (convertLeaf payloadPrefix field comparison value).Ensures (LeafOutcome field comparison) := by
  -- Whatever is wrong with the field or the operator is told of, and drops the leaf.
  unfold convertLeaf
  split
  · split
    · split
      · split
        · exact ensures_convertComparison payloadPrefix _ _ value
        · exact ensures_leafDropped rfl (by simp)
      · exact ensures_leafDropped rfl (by simp)
      · exact .refuse
    · exact ensures_leafDropped rfl (by simp)
  · exact ensures_leafDropped rfl (by simp)

end ContentQuery.Qdrant
