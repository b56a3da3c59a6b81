import ContentQuery.Proofs.Qdrant.Scroll

/-! What clauses and conditions ask for, and that a filter compiled without notices keeps it. -/

namespace ContentQuery.Qdrant

namespace Clause

mutual

/-- Whether a clause holds where `truth` tells which of the primitive ones do. -/
def Holds (truth : Clause → Prop) : Clause → Prop
  | .matching key how => truth (.matching key how)
  | .range key side bound => truth (.range key side bound)
  | .hasId ids => truth (.hasId ids)
  | .isNull key => truth (.isNull key)
  | .isEmpty key => truth (.isEmpty key)
  -- No alternative is asked for where none are given.
  | .filter must should mustNot =>
    AllHold truth must ∧ (should ≠ [] → AnyHolds truth should) ∧ ¬ AnyHolds truth mustNot
termination_by structural input => input

/-- Whether all clauses hold. -/
def AllHold (truth : Clause → Prop) : List Clause → Prop
  | [] => True
  | clause :: rest => Holds truth clause ∧ AllHold truth rest
termination_by structural input => input

/-- Whether one of the clauses holds. -/
def AnyHolds (truth : Clause → Prop) : List Clause → Prop
  | [] => False
  | clause :: rest => Holds truth clause ∨ AnyHolds truth rest
termination_by structural input => input

end

@[simp] theorem allHold_iff (truth : Clause → Prop) (clauses : List Clause) :
    AllHold truth clauses ↔ ∀ clause ∈ clauses, clause.Holds truth := by
  induction clauses with
  | nil => simp [AllHold]
  | cons clause rest ih => simp [AllHold, ih]

@[simp] theorem anyHolds_iff (truth : Clause → Prop) (clauses : List Clause) :
    AnyHolds truth clauses ↔ ∃ clause ∈ clauses, clause.Holds truth := by
  induction clauses with
  | nil => simp [AnyHolds]
  | cons clause rest ih => simp [AnyHolds, ih]

/-- A clause that asks for clauses only holds when they all do. -/
@[simp] theorem holds_must (truth : Clause → Prop) (clauses : List Clause) :
    (filter clauses [] []).Holds truth ↔ ∀ clause ∈ clauses, clause.Holds truth := by
  simp [Holds]

/-- A clause of alternatives holds when one of them does. -/
theorem holds_should (truth : Clause → Prop) {clauses : List Clause} (some_ : clauses ≠ []) :
    (filter [] clauses []).Holds truth ↔ ∃ clause ∈ clauses, clause.Holds truth := by
  simp [Holds, some_]

/-- A negated clause holds when the clause does not. -/
@[simp] theorem holds_negated (truth : Clause → Prop) (clause : Clause) :
    clause.negated.Holds truth ↔ ¬ clause.Holds truth := by
  simp [negated, Holds]

end Clause

/-- Whether what a condition was converted to holds; nothing holds of what was dropped. -/
def Converted.Holds (truth : Clause → Prop) : Converted → Prop
  | .dropped => False
  | .unconstrained => True
  | .clause found => found.Holds truth

@[simp] theorem Converted.holds_unconstrained (truth : Clause → Prop) :
    Converted.unconstrained.Holds truth :=
  trivial

@[simp] theorem Converted.holds_clause (truth : Clause → Prop) (found : Clause) :
    (Converted.clause found).Holds truth ↔ found.Holds truth :=
  Iff.rfl

/-- Whether a point passes a filter; without a filter, every point does. -/
def FilterHolds (truth : Clause → Prop) : Option Clause → Prop
  | none => True
  | some clause => clause.Holds truth

/-- What a leaf asks for: the clause that it is converted to when it stands alone. -/
def LeafHolds (truth : Clause → Prop) (payloadPrefix field : Value) (comparison : Comparison)
    (value : Value) : Prop :=
  match convertLeaf payloadPrefix field comparison value .empty with
  | .ok (converted, _) => converted.Holds truth
  | .error _ => False

mutual

/-- What a condition asks for, its leaves being read as their own clauses. -/
def Holds (truth : Clause → Prop) (payloadPrefix : Value) : Condition → Prop
  | .leaf field comparison value => LeafHolds truth payloadPrefix field comparison value
  | .all conditions => AllHold truth payloadPrefix conditions
  | .any conditions => AnyHolds truth payloadPrefix conditions
  | .not condition => ¬ Holds truth payloadPrefix condition
termination_by structural input => input

/-- What conditions ask for together. -/
def AllHold (truth : Clause → Prop) (payloadPrefix : Value) : List Condition → Prop
  | [] => True
  | condition :: rest => Holds truth payloadPrefix condition ∧ AllHold truth payloadPrefix rest
termination_by structural input => input

/-- What conditions ask for as alternatives. -/
def AnyHolds (truth : Clause → Prop) (payloadPrefix : Value) : List Condition → Prop
  | [] => False
  | condition :: rest => Holds truth payloadPrefix condition ∨ AnyHolds truth payloadPrefix rest
termination_by structural input => input

end

/-- What a condition adds to a whole filter asks for what the condition was converted to. -/
theorem holds_conjuncts_of_kept {result : Converted} (kept : result ≠ .dropped)
    (truth : Clause → Prop) :
    (∀ clause ∈ conjuncts result, clause.Holds truth) ↔ result.Holds truth := by
  -- A clause that only asks for others is replaced by them, and every other one stands.
  unfold conjuncts
  split
  · exact absurd rfl kept
  · simp
  · simp
  · simp

section Results

variable {results : List Converted} (kept : ∀ result ∈ results, result ≠ .dropped)
include kept

/-- Where nothing was dropped, results hold together when their clauses do. -/
theorem all_clauses (truth : Clause → Prop) :
    (∀ clause ∈ results.filterMap Converted.clause?, clause.Holds truth) ↔
      ∀ result ∈ results, result.Holds truth := by
  simp only [List.mem_filterMap, forall_exists_index, and_imp]
  -- A result has a clause unless it constrains nothing, and then it holds anyway.
  constructor
  · intro every result member
    cases result with
    | dropped => exact absurd rfl (kept _ member)
    | unconstrained => trivial
    | clause clause => exact every clause _ member rfl
  · rintro every clause (_ | _ | found) member same
    · exact nomatch same
    · exact nomatch same
    · obtain rfl := Option.some.inj same
      exact every _ member

/-- Where nothing was dropped and everything constrains, alternatives are those of the clauses. -/
theorem any_clauses (constrained : results.any Converted.isUnconstrained = false)
    (truth : Clause → Prop) :
    (∃ clause ∈ results.filterMap Converted.clause?, clause.Holds truth) ↔
      ∃ result ∈ results, result.Holds truth := by
  simp only [List.mem_filterMap]
  -- Since every result constrains something, each of them has a clause.
  constructor
  · rintro ⟨clause, ⟨_ | _ | found, member, same⟩, true_⟩
    · exact nomatch same
    · exact nomatch same
    · obtain rfl := Option.some.inj same
      exact ⟨_, member, true_⟩
  · rintro ⟨_ | _ | clause, member, true_⟩
    · exact absurd rfl (kept _ member)
    · rw [List.any_eq_true.mpr ⟨_, member, rfl⟩] at constrained
      exact nomatch constrained
    · exact ⟨clause, ⟨_, member, rfl⟩, true_⟩

/-- Where nothing was dropped, results without clauses constrain nothing. -/
theorem unconstrained_of_no_clauses (none_ : results.filterMap Converted.clause? = []) :
    (results.isEmpty || results.any Converted.isUnconstrained) = true := by
  -- Nothing was dropped, so that what has no clause does not constrain.
  cases results with
  | nil => rfl
  | cons first rest =>
    cases first with
    | dropped => exact absurd rfl (kept .dropped (by simp))
    | unconstrained => rfl
    | clause clause => simp [Converted.clause?] at none_

/-- Where nothing was dropped, a conjunction says what its operands say together. -/
theorem holds_conjunction :
    conjunction results ≠ .dropped ∧ ∀ truth, (conjunction results).Holds truth ↔
      ∀ result ∈ results, result.Holds truth := by
  have every := all_clauses kept
  unfold conjunction joined
  -- The cases are those of the number of clauses: none, one, or several.
  split
  · rename_i none_
    rw [if_pos (unconstrained_of_no_clauses kept none_)]
    refine ⟨nofun, fun truth => ?_⟩
    rw [← every truth, none_]
    simp
  · rename_i only alone
    refine ⟨nofun, fun truth => ?_⟩
    rw [← every truth, alone]
    simp
  · refine ⟨nofun, fun truth => ?_⟩
    rw [← every truth]
    exact Clause.holds_must truth _

/-- Where nothing was dropped, a disjunction of some operands says what one of them says. -/
theorem holds_disjunction (some_ : results ≠ []) :
    disjunction results ≠ .dropped ∧ ∀ truth, (disjunction results).Holds truth ↔
      ∃ result ∈ results, result.Holds truth := by
  unfold disjunction
  split
  · rename_i free
    -- One result that constrains nothing frees the whole disjunction.
    obtain ⟨result, member, unconstrained⟩ := List.any_eq_true.mp free
    refine ⟨nofun, fun truth => iff_of_true trivial ⟨result, member, ?_⟩⟩
    cases result with
    | unconstrained => trivial
    | dropped | clause => cases unconstrained
  · rename_i free
    have constrained : results.any Converted.isUnconstrained = false := by simpa using free
    have alternatives := any_clauses kept constrained
    unfold joined
    split
    · rename_i none_
      -- Results without clauses would constrain nothing, which was excluded above.
      have empty := unconstrained_of_no_clauses kept none_
      rw [constrained, Bool.or_false, List.isEmpty_iff] at empty
      exact absurd empty some_
    · rename_i only alone
      refine ⟨nofun, fun truth => ?_⟩
      rw [← alternatives truth, alone]
      simp
    · rename_i none_ one
      refine ⟨nofun, fun truth => ?_⟩
      rw [← alternatives truth]
      exact Clause.holds_should truth none_

/-- Where nothing was dropped, a whole filter asks for what its conditions ask for. -/
theorem holds_conjuncts (truth : Clause → Prop) :
    (∀ clause ∈ results.flatMap conjuncts, clause.Holds truth) ↔
      ∀ result ∈ results, result.Holds truth := by
  simp only [List.mem_flatMap, forall_exists_index, and_imp]
  -- The clauses of the filter are those of its results, one result after the other.
  constructor
  · intro every result member
    exact (holds_conjuncts_of_kept (kept result member) truth).mp fun clause inside =>
      every clause result member inside
  · intro every clause result member inside
    exact (holds_conjuncts_of_kept (kept result member) truth).mpr (every result member) clause
      inside

end Results

end ContentQuery.Qdrant
