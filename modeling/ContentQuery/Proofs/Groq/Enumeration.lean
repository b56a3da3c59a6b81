import ContentQuery.Proofs.Alike.Filter
import ContentQuery.Proofs.Echoes
import ContentQuery.Proofs.Enumeration
import ContentQuery.Proofs.Groq.Leaf
import ContentQuery.Proofs.Groq.Statement

/-! Statements do not tell how the sets in a filter are enumerated. -/

namespace ContentQuery

/-- Literals are alike where they differ in how their sets are enumerated only. -/
def enumerations : Likeness where
  literals _ := Value.Reenumerated
  arguments := Eq
  literals_refl _ value := .same value
  arguments_refl _ := rfl

namespace Groq

open Value (Reenumerated)

/-- Leaves that bind the same literals for the same expressions, or that are both dropped. -/
theorem echo_orNotice (field : Value) (operator : Operator) {build build' : Literally Expression}
    {bound bound' : Except FormatFault (List Value)} {expression : Nat → Expression}
    (same : bound.toOption = bound'.toOption)
    (binds : ∀ slot, build.Binds slot bound (expression slot))
    (binds' : ∀ slot, build'.Binds slot bound' (expression slot)) :
    Convert.Echo Eq (orNotice field operator build) (orNotice field operator build') := by
  -- Either both literals bind or neither does.
  intro slot
  rcases ok_or_error_of_toOption same with ⟨literals, rfl, rfl⟩ | ⟨fault, fault', rfl, rfl⟩
  · have kept {build : Literally Expression}
        (binds : build.Binds slot (.ok literals) (expression slot)) :
        (orNotice field operator build).Gives slot (some (expression slot)) (literals ++ []) [] :=
      Convert.Gives.bind binds (Convert.gives_pure _ _)
    exact ⟨_, _, _, _, _, kept (binds slot), kept (binds' slot), rfl, rfl⟩
  · -- Either is noted as an invalid value, whatever is wrong with it.
    have dropped {build : Literally Expression} {fault : FormatFault}
        (binds : build.Binds slot (.error fault) (expression slot)) :
        (orNotice field operator build).Gives slot none [] [_] :=
      Convert.Gives.bind binds
        ((Convert.gives_degrade _ _ _ _ _).bind (Convert.gives_pure none _))
    exact ⟨none, none, [], _, _, dropped (binds slot), dropped (binds' slot), rfl, rfl⟩

/-- A leaf that is dropped for its field or its operator is dropped whatever its literal is. -/
theorem echo_isDropped {field : Value} {comparison : Comparison}
    {convert : Convert (Option Expression)} (dropped : IsDropped field comparison convert) :
    Convert.Echo Eq convert convert := by
  obtain ⟨notice, -, gives⟩ := dropped
  exact fun slot => ⟨_, _, _, _, _, gives slot, gives slot, rfl, rfl⟩

section Leaf

variable {value value' : Value} (inside : Reenumerated value value')
include inside

/-- The form of a literal does not tell how its sets are enumerated. -/
theorem formOf_reenumerated : formOf value = formOf value' := by
  unfold formOf Value.toJson
  rw [Value.jsonForm_reenumerated inside 0 false]

/-- A leaf is converted to one expression, or dropped, however the sets in it are enumerated. -/
theorem echo_convertLeaf (field : Value) (comparison : Comparison) :
    Convert.Echo Eq (convertLeaf field comparison value) (convertLeaf field comparison value') := by
  -- What is bound is the form in which the literal is sent, and reenumerating keeps that form; the
  -- fields and the operator are the same.
  have form := Value.jsonForm_reenumerated inside 0 false
  cases comparison with
  | unknown word => exact echo_isDropped (convertsLeaf field (.unknown word) value)
  | known operator =>
    have bound : (boundByLeaf operator value).toOption =
        (boundByLeaf operator value').toOption := by
      cases operator with
      | defined | undefined => rfl
      | _ => exact toOption_bind form fun _ => rfl
    unfold convertLeaf
    cases field with
    | text path =>
      dsimp only
      split
      · refine echo_orNotice _ _ bound (binds_leafExpression path operator value) fun slot => ?_
        rw [formOf_reenumerated inside]
        exact binds_leafExpression path operator value' slot
      · exact echo_isDropped (isDropped_dropField _ _)
    | null =>
      dsimp only
      split
      · exact echo_orNotice _ _ (toOption_bind form fun _ => rfl)
          (binds_referenceExpression value) (binds_referenceExpression value')
      · exact echo_isDropped (isDropped_dropField _ _)
    | _ => exact echo_isDropped (isDropped_dropField _ _)

end Leaf

mutual

/-- Conditions are converted to one expression, however the sets in them are enumerated. -/
theorem echo_convert : {condition condition' : Condition} →
    Condition.Alike enumerations condition condition' →
      Convert.Echo Eq (convert condition) (convert condition')
  -- By induction on the two conditions; a connective asks for the number of its members only.
  | _, _, .leaf literals => echo_convertLeaf literals _ _
  | .all conditions, .all conditions', .all inside => by
    unfold convert
    rw [inside.length_eq]
    refine .bind (echo_convertAll inside) ?_
    rintro parts _ rfl
    exact .pure rfl
  | .any conditions, .any conditions', .any inside => by
    unfold convert
    rw [inside.length_eq]
    refine .bind (echo_convertAll inside) ?_
    rintro parts _ rfl
    exact .pure rfl
  | _, _, .not inside => .bind (echo_convert inside) (by
    rintro operand _ rfl
    exact .pure rfl)
termination_by structural _ _ alike => alike

/-- Conditions in a row are converted to the same expressions. -/
theorem echo_convertAll : {conditions conditions' : List Condition} →
    Condition.AllAlike enumerations conditions conditions' →
      Convert.Echo Eq (convertAll conditions) (convertAll conditions')
  -- By induction on the conditions.
  | _, _, .nil => .pure rfl
  | _, _, .cons first others => .bind (echo_convert first) (by
    rintro expression _ rfl
    refine .bind (echo_convertAll others) ?_
    rintro parts _ rfl
    exact .pure rfl)
termination_by structural _ _ alike => alike

end

/-- The filters of conditions that are alike are converted to the same parts. -/
theorem echo_filterParts (settings : Settings) (query query' : Query) {own own' : List Condition}
    (beside : query' = { query with filter := query'.filter })
    (alike : Condition.AllAlike enumerations own own') :
    Convert.Echo Eq (filterParts settings query own) (filterParts settings query' own') := by
  have everywhere : Convert.Echo Eq (globalClause settings) (globalClause settings) := by
    unfold globalClause
    split
    · exact .pure rfl
    · exact echo_convertAll (.refl _)
  rw [beside]
  refine .bind (echo_convertAll alike) ?_
  rintro parts _ rfl
  refine .bind everywhere ?_
  rintro others _ rfl
  exact .pure rfl

/--
Queries whose conditions are alike are compiled to one statement with the same parameters, unless
one of them is refused for an integer that is too long.
-/
theorem agree_compile (settings : Settings) (query query' : Query) {own own' : List Condition}
    (beside : query' = { query with filter := query'.filter })
    (alike : Condition.AllAlike enumerations own own') :
    AgreeUnless (· = .unwritable) (fun compiled compiled' => compiled.query = compiled'.query ∧
        compiled.parameters = compiled'.parameters ∧
          compiled.notices.map Notice.reason = compiled'.notices.map Notice.reason)
      (compile settings query own) (compile settings query' own') := by
  have refused {query : Query} {conditions : List Condition}
      (fails : ¬ canConvertAll (conditions ++ settings.globalFilter.conditionList) = true) :
      compile settings query conditions = .error .unwritable := by
    unfold compile
    rw [Bool.not_eq_true] at fails
    rw [fails]
    rfl
  by_cases forms : canConvertAll (own ++ settings.globalFilter.conditionList) = true
  case neg => exact Or.inr ⟨_, rfl, Or.inl (refused forms)⟩
  by_cases forms' : canConvertAll (own' ++ settings.globalFilter.conditionList) = true
  case neg => exact Or.inr ⟨_, rfl, Or.inr (refused forms')⟩
  -- Neither fails for a literal, and their conversions bind the same and note the same.
  rw [compile_of_run forms, compile_of_run forms']
  refine Compiled.agree_run .groq settings ?_
  rw [convertQuery_eq, convertQuery_eq]
  refine .bind (echo_filterParts settings query query' beside alike).lift ?_
  rintro filter _ rfl
  have rest : finish settings query filter = finish settings query' filter := by
    rw [beside]
    rfl
  rw [← rest]
  exact (Compile.Echo.refl (steady_finish settings query filter)).mono fun _ _ same =>
    same ▸ ⟨rfl, rfl⟩

end Groq

end ContentQuery
