import ContentQuery.Proofs.Notices
import ContentQuery.Proofs.OrderedMap

/-! Parameters that are passed through: what becomes of them, and of those that were compiled. -/

namespace ContentQuery

variable {Argument : Type} (taken : Value → Bool) (wrap : Value → Argument)

/-- Parameters with those that are passed through, less the ones whose keys are taken. -/
def passed : List (Value × Value) → OrderedMap Value Argument → OrderedMap Value Argument
  | [], parameters => parameters
  | (key, value) :: rest, parameters =>
    passed rest
      (if taken key || parameters.contains key then parameters
        else parameters.insert key (wrap value))

/-- Passing parameters through is never refused. -/
theorem gives_passThrough (what : String) (entries : List (Value × Value))
    (parameters : OrderedMap Value Argument) : ∃ notices,
      (passThrough taken what wrap entries parameters).Gives
        (passed taken wrap entries parameters) notices := by
  -- A key that is taken leaves a notice, and the others are passed on.
  induction entries generalizing parameters with
  | nil => exact ⟨[], Compile.gives_pure _⟩
  | cons entry rest ih =>
    unfold passThrough passed
    split
    · obtain ⟨notices, gives⟩ := ih parameters
      exact ⟨_, (Compile.gives_degrade _ _ _ _).bind gives⟩
    · exact ih _

/-- Passing parameters through is what leads to them. -/
theorem ensures_passThrough (what : String) (entries : List (Value × Value))
    (parameters : OrderedMap Value Argument) :
    (passThrough taken what wrap entries parameters).Ensures fun result _ =>
      result = passed taken wrap entries parameters := by
  obtain ⟨notices, gives⟩ := gives_passThrough taken wrap what entries parameters
  exact Or.inr ⟨_, notices, gives, rfl⟩

/-- Passing parameters through looks at no notice. -/
theorem steady_passThrough (what : String) (entries : List (Value × Value))
    (parameters : OrderedMap Value Argument) :
    (passThrough taken what wrap entries parameters).Steady fun result =>
      result = passed taken wrap entries parameters :=
  (ensures_passThrough taken wrap what entries parameters).steady

/-- What is passed through comes behind what was compiled, and no key of it is taken. -/
theorem entries_passed (entries : List (Value × Value)) (parameters : OrderedMap Value Argument) :
    ∃ added, (passed taken wrap entries parameters).entries = parameters.entries ++ added ∧
      ∀ entry ∈ added, taken entry.1 = false ∧ parameters.contains entry.1 = false ∧
        ∃ value, (entry.1, value) ∈ entries ∧ entry.2 = wrap value := by
  -- By induction on what is passed: an entry that is taken already is left out, and any other is
  -- put at the end.
  induction entries generalizing parameters with
  | nil => exact ⟨[], (List.append_nil _).symm, nofun⟩
  | cons entry rest ih =>
    obtain ⟨key, value⟩ := entry
    unfold passed
    split
    · obtain ⟨added, same, each⟩ := ih parameters
      refine ⟨added, same, fun entry member => ?_⟩
      obtain ⟨free, fresh, given, inside, wrapped⟩ := each entry member
      exact ⟨free, fresh, given, List.mem_cons_of_mem _ inside, wrapped⟩
    · rename_i kept
      obtain ⟨untaken, absent⟩ : taken key = false ∧ parameters.contains key = false := by
        simpa using kept
      rw [OrderedMap.insert_of_not_contains absent]
      obtain ⟨added, same, each⟩ := ih ⟨parameters.entries ++ [(key, wrap value)]⟩
      refine ⟨(key, wrap value) :: added, by simpa using same, ?_⟩
      rintro entry (_ | ⟨_, member⟩)
      · exact ⟨untaken, absent, value, by simp, rfl⟩
      · obtain ⟨free, fresh, given, inside, wrapped⟩ := each entry member
        -- What is free beside the longer list is free beside the shorter.
        refine ⟨free, ?_, given, List.mem_cons_of_mem _ inside, wrapped⟩
        simpa [OrderedMap.contains] using (by simpa [OrderedMap.contains] using fresh : _ ∧ _).1

/-- Where no two compiled keys are equal, none are in the end. -/
theorem distinct_passed (entries : List (Value × Value)) {parameters : OrderedMap Value Argument}
    (distinct : parameters.Distinct) : (passed taken wrap entries parameters).Distinct := by
  -- By induction on what is passed: an entry is only added under a key that is not there.
  induction entries generalizing parameters with
  | nil => exact distinct
  | cons entry rest ih =>
    unfold passed
    split
    · exact ih distinct
    · rename_i kept
      obtain ⟨-, absent⟩ : taken entry.1 = false ∧ parameters.contains entry.1 = false := by
        simpa using kept
      exact ih (distinct.insert absent)

section Key

variable {key : Value} (discrete : OrderedMap.IsDiscrete key)
include discrete

/-- A compiled parameter keeps its value, and another one has the first value passed through. -/
theorem get?_passed (entries : List (Value × Value)) (parameters : OrderedMap Value Argument) :
    (passed taken wrap entries parameters).get? key = (parameters.get? key).or
      (if taken key then none else (OrderedMap.get? ⟨entries⟩ key).map wrap) := by
  -- By induction on the entries, with the parameters that are there already.
  induction entries generalizing parameters with
  | nil => simp [passed, OrderedMap.get?]
  | cons entry rest ih =>
    obtain ⟨other, value⟩ := entry
    unfold passed
    rw [ih]
    by_cases same : other = key
    · subst same
      have equal : (other == other) = true := (discrete.left other).mpr rfl
      split
      · rename_i kept
        -- A key that is there already has a value, and one that is taken gets none.
        cases untaken : taken other with
        | true => simp
        | false =>
          rw [untaken, Bool.false_or, OrderedMap.contains_eq_isSome] at kept
          obtain ⟨known, there⟩ := Option.isSome_iff_exists.mp kept
          simp [there]
      · rename_i kept
        obtain ⟨untaken, absent⟩ : taken other = false ∧ parameters.contains other = false := by
          simpa using kept
        rw [OrderedMap.get?_insert_self discrete, OrderedMap.contains_eq_false.mp absent]
        simp [untaken, OrderedMap.get?, equal]
    · have unequal : (other == key) = false := by
        simpa using mt (discrete.left other).mp same
      have skipped : (OrderedMap.get? ⟨(other, value) :: rest⟩ key) =
          OrderedMap.get? ⟨rest⟩ key := by
        simp [OrderedMap.get?, unequal]
      rw [skipped]
      split
      · rfl
      · rw [OrderedMap.get?_insert_of_ne discrete _ same]

/-- A key that appears once among the compiled parameters appears once in the end. -/
theorem unique_passed (entries : List (Value × Value)) {parameters : OrderedMap Value Argument}
    (unique : parameters.Unique key) : (passed taken wrap entries parameters).Unique key := by
  -- By induction on what is passed, as for all the keys at once.
  induction entries generalizing parameters with
  | nil => exact unique
  | cons entry rest ih =>
    unfold passed
    split
    · exact ih unique
    · rename_i kept
      obtain ⟨-, absent⟩ : taken entry.1 = false ∧ parameters.contains entry.1 = false := by
        simpa using kept
      exact ih (unique.insert discrete absent)

end Key

section Named

variable {parameters : OrderedMap Value Argument} {names : List String}
  (named : parameters.keys.Sublist (names.map Value.text))
include named

/-- Parameters have no value under other names than their own. -/
theorem get?_eq_none_of_named {name : String} (free : name ∉ names) :
    parameters.get? (.text name) = none := by
  -- The keys are among the names, and this name is none of them.
  refine OrderedMap.contains_eq_false.mp (List.any_eq_false.mpr fun entry member equal => ?_)
  have listed := named.subset (List.mem_map_of_mem member)
  rw [Value.eq_text_of_same equal] at listed
  exact free (by simpa using listed)

/-- Parameters whose names are all different have each name once. -/
theorem unique_of_named (different : names.Nodup) (key : Value) : parameters.Unique key := by
  -- The names are different, and so are the keys that were made of them.
  have keys : (names.map Value.text).Nodup :=
    List.pairwise_map.mpr (different.imp fun apart same => apart (Value.text.inj same))
  exact (List.pairwise_map.mp (keys.sublist named)).imp fun apart here same =>
    apart (here.trans same.symm)

/-- Parameters whose names are all different have no two keys that are equal. -/
theorem distinct_of_named (different : names.Nodup) : parameters.Distinct := by
  -- The names are different, and so are the keys that were made of them.
  have keys : (names.map Value.text).Pairwise fun first second => (first == second) = false :=
    List.pairwise_map.mpr (different.imp fun apart => Bool.eq_false_iff.mpr fun equal =>
      apart (Value.text.inj (Value.eq_text_of_same equal)))
  exact List.pairwise_map.mp (keys.sublist named)

end Named

end ContentQuery
