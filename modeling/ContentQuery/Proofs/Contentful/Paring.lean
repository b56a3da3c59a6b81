import ContentQuery.Proofs.Contentful.Request
import ContentQuery.Proofs.Paring.Reading

/-! What the projection of a query excludes does not show in a request. -/

namespace ContentQuery.Contentful

open Compile (Eases)

variable {accepts : String → Bool} {levels : Nat}

/-- A projection selects the same key without what is excluded below it. -/
theorem eases_selectedKey {above count : Nat} {item item' : Projection}
    (pares : Projection.Pares accepts levels above count item item') :
    Eases Eq (selectedKey item) (selectedKey item') := by
  cases pares with
  | same => exact .refl (steady_selectedKey item) fun _ _ => rfl
  | nested name _ => exact .refl (steady_selectedKey _) fun _ _ => rfl
  | expanded name _ => exact .refl (steady_selectedKey _) fun _ _ => rfl
  | hollow name _ => exact .refl (steady_selectedKey _) fun _ _ => rfl
  | emptied name _ =>
    -- The field is selected as a whole, which is noted only where a part of it was asked for.
    have noted (key : Option String) (message : String) : Compile.Ensures (do
        if key.isSome then Compile.degrade .nestedProjection message (.text name) .null
        return key) fun key' _ => key' = key := by
      have degraded : (Compile.degrade .nestedProjection message (.text name) .null).Ensures
          fun _ _ => True := .degrade trivial
      split
      · exact .bind degraded fun _ _ _ => .pure rfl
      · exact .pure rfl
    show Eases Eq _ (keyOfName name)
    rw [← bind_pure (keyOfName name)]
    exact .after (steady_keyOfName name) fun key _ => .silent (noted key _)

/-- Projections select the same keys without those that exclude something. -/
theorem eases_selectKeys {above count : Nat} {items items' : List Projection} :
    Projection.AllPare accepts levels above count items items' → ∀ selected,
      Eases Eq (selectKeys selected items) (selectKeys selected items')
  | .nil, _ => .pure rfl
  | .cons first later, selected => by
    have others := eases_selectKeys later
    refine (eases_selectedKey first).bind ?_
    rintro key _ rfl
    cases key with
    | some key => exact others _
    | none => exact others selected
  | .excluded name later, selected => by
    have others := eases_selectKeys later
    -- Nothing is selected for an exclusion, which is only noted.
    have dropped : (selectedKey (.excluded (.text name))).Ensures fun key _ => key = none :=
      Compile.ensures_dropped _ _ _ _
    refine .skip dropped ?_
    rintro _ rfl
    exact others selected

section Query

variable (settings : Settings) (everyLocale : Value) (query : Query)

/-- What is excluded changes neither the selection nor the expansions that are asked for. -/
theorem eases_selectionOf :
    Eases Eq (selectionOf settings query) (selectionOf settings query.pared) := by
  -- What is expanded to nothing does not matter here, whatever the names and the levels are.
  have fields := Projection.eases_readTop (fun _ => true) 0 settings.depthLimit query.projection
  unfold selectionOf
  rw [Query.pared, Projection.isNull_pare]
  split
  · exact .pure rfl
  · refine fields.bind fun fields fields' pares => (eases_selectKeys pares _).bind ?_
    rintro keys _ rfl
    rw [← pares.measure_eq]
    exact .after Compile.Steady.ofExcept fun _ _ => .pure rfl

/-- The parameters beside the filter are the same. -/
theorem eases_optionsOf :
    Eases Eq (optionsOf settings everyLocale query)
      (optionsOf settings everyLocale query.pared) := by
  -- Only the selection looks at the projection, and it is the same for the pared one.
  refine (eases_selectionOf settings query).bind ?_
  rintro selection _ rfl
  exact .after (steady_orderClauses query.order) fun _ _ =>
    .after (steady_windowOf settings query) fun _ _ =>
      .after (steady_localeOf settings everyLocale query) fun _ _ =>
        .after (steady_includeOf settings query _) fun _ _ => .pure rfl

/-- A query without what its projection excludes compiles to the same filter and parameters. -/
theorem pared_of_compile {conditions : List Condition} {compiled : Request}
    (ran : compile settings everyLocale query conditions = .ok compiled) :
    ∃ pared, compile settings everyLocale query.pared conditions = .ok pared ∧
      compiled.query = pared.query ∧ compiled.parameters = pared.parameters := by
  have eases (filter : FilterMap) : Eases Eq (finish settings everyLocale query filter)
      (finish settings everyLocale query.pared filter) := by
    refine (eases_optionsOf settings everyLocale query).bind ?_
    rintro own _ rfl
    exact .after (steady_passThrough _ _ _ _ _) fun _ _ => .pure rfl
  obtain ⟨ran, writable⟩ := run_of_compile ran
  rw [convertQuery_eq] at ran
  obtain ⟨pared, ran', same⟩ := Compiled.run_of_eases eases ran
  obtain ⟨filters, parameters⟩ := Prod.mk.inj same
  -- The filter is the same, and so it can be written as before.
  rw [filters] at writable
  refine ⟨pared, compile_of_run ?_ writable, filters, parameters⟩
  rw [convertQuery_eq]
  exact ran'

end Query

end ContentQuery.Contentful
