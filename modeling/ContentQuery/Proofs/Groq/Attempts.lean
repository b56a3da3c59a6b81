import ContentQuery.Proofs.Attempts
import ContentQuery.Proofs.Groq.Leaf
import ContentQuery.Proofs.Groq.Statement
import ContentQuery.Proofs.TwoRuns

/-! Every leaf of a filter is tried: it is carried over, dropped with a notice, or refuses. -/

namespace ContentQuery.Groq

open Compile (Concur)
open Condition (leaves leavesAll)

/-- Whether an attempt is carried over. -/
def carries : Attempt → Bool
  | .leaf field comparison value => (boundOf? field comparison value).isSome
  | _ => false

/-- The refusal that an attempt leads to: an integer that has to be written is too long for it. -/
def refusal? : Attempt → Option Fault
  | .leaf field comparison value =>
    if canConvertLeaf field comparison value then none else some .unwritable
  | _ => none

mutual

/-- A leaf of a condition leads to a refusal where the condition cannot be converted. -/
theorem findSome?_leaves : (condition : Condition) →
    (leaves condition).findSome? refusal? =
      if canConvert condition then none else some .unwritable
  -- By induction on the condition: the leaves are converted from left to right.
  | .leaf field comparison value => by
    unfold leaves canConvert
    rw [List.findSome?_cons, refusal?]
    cases canConvertLeaf field comparison value <;> rfl
  | .all conditions => findSome?_leavesAll conditions
  | .any conditions => findSome?_leavesAll conditions
  | .not condition => by
    unfold leaves canConvert
    exact findSome?_leaves condition
termination_by structural condition => condition

/-- A leaf of conditions leads to a refusal where one of them cannot be converted. -/
theorem findSome?_leavesAll : (conditions : List Condition) →
    (leavesAll conditions).findSome? refusal? =
      if canConvertAll conditions then none else some .unwritable
  -- By induction on the conditions; the first leaf that cannot be converted ends it.
  | [] => rfl
  | condition :: rest => by
    unfold leavesAll canConvertAll
    rw [List.findSome?_append, findSome?_leaves condition, findSome?_leavesAll rest]
    cases canConvert condition <;> rfl
termination_by structural conditions => conditions

end

/-- Conditions in two lists can be converted where those of either list can. -/
theorem canConvertAll_append (first second : List Condition) :
    canConvertAll (first ++ second) = (canConvertAll first && canConvertAll second) := by
  induction first with
  | nil => rfl
  | cons condition rest ih => rw [List.cons_append, canConvertAll, canConvertAll, ih, Bool.and_assoc]

-- By induction on the conditions: a notice about a part is among those about the whole.
mutual

/-- A condition is told of every leaf that is lost. -/
theorem ensures_told : (condition : Condition) → (slot : Nat) →
    (convert condition).Ensures slot fun _ _ notices => Told carries (leaves condition) notices
  -- By induction on the condition. A leaf either carries its literal or leaves a notice that names
  -- it, and the connectives lose nothing.
  | .leaf field comparison value, slot => by
    have converted := convertsLeaf field comparison value
    unfold ConvertsLeaf at converted
    unfold convert
    split at converted
    · rename_i literals carried
      refine ⟨_, _, _, converted slot, told_single fun lost => ?_⟩
      simp [carries, carried] at lost
    · obtain ⟨notice, names, gives⟩ := converted
      exact ⟨_, _, _, gives slot, told_single fun _ => ⟨notice, List.mem_singleton_self _, names⟩⟩
  | .all conditions, slot =>
    .bind (ensures_toldAll conditions slot) fun _ _ notices told =>
      .pure (by rw [List.append_nil]; exact told)
  | .any conditions, slot =>
    .bind (ensures_toldAll conditions slot) fun _ _ notices told =>
      .pure (by rw [List.append_nil]; exact told)
  | .not condition, slot =>
    .bind (ensures_told condition slot) fun _ _ notices told =>
      .pure (by rw [List.append_nil]; exact told)
termination_by structural condition => condition

/-- Conditions are told of every leaf that is lost. -/
theorem ensures_toldAll : (conditions : List Condition) → (slot : Nat) →
    (convertAll conditions).Ensures slot fun _ _ notices =>
      Told carries (leavesAll conditions) notices
  -- By induction on the conditions, whose notices come one behind another.
  | [], _ => .pure told_nil
  | condition :: rest, slot =>
    .bind (ensures_told condition slot) fun _ _ _ told =>
      .bind (ensures_toldAll rest _) fun _ _ _ told' => .pure (by
        rw [List.append_nil]
        exact told.append told')
termination_by structural conditions => conditions

end

/-- A filter is converted, with a notice about every leaf of its own conditions that is lost. -/
theorem ensures_filterParts_told (settings : Settings) (query : Query) (own : List Condition) :
    (filterParts settings query own).Ensures 0 fun _ _ notices =>
      Told carries (leavesAll own) notices := by
  -- The notices of the settings' conditions come behind those of the query's own.
  have everywhere (slot : Nat) : (globalClause settings).Ensures slot fun _ _ _ => True := by
    unfold globalClause
    split
    · exact .pure trivial
    · exact (ensures_toldAll _ slot).mono fun _ _ _ _ => trivial
  refine .bind (ensures_toldAll own 0) fun _ _ notices told => ?_
  refine .bind (everywhere _) fun _ _ notices' _ => .pure ?_
  exact told.within (List.subset_append_left _ _)

section Projection

/-- Attributes that are delivered under the same keys. -/
def SameKeys (attributes attributes' : List Attribute) : Prop :=
  attributes.map Attribute.key = attributes'.map Attribute.key

/-- An attribute is delivered under the same key, or in both cases none is. -/
def SameKey (result result' : Option Attribute) : Prop :=
  result.map Attribute.key = result'.map Attribute.key

/-- An attribute has its own key. -/
theorem sameKey_refl (result : Option Attribute) : SameKey result result :=
  rfl

/-- A computed attribute has its key whatever its arguments are bound to. -/
theorem concur_convertComputed (name function : Value) (arguments : List Value) :
    Concur SameKey (convertComputed name function arguments)
      (convertComputed name function arguments) := by
  have dropped (reason : Reason) (message : String) :
      Concur SameKey (dropAttribute reason message name) (dropAttribute reason message name) :=
    .refl sameKey_refl (blind_dropAttribute _ _ _)
  have passed (writable : Bool) :
      Concur Eq (Compile.requireWritten writable) (Compile.requireWritten writable) :=
    .refl (fun _ => rfl) .requireWritten
  -- The arguments have their forms in both runs or in neither.
  have bound : Concur (fun result result' => result.toOption.isSome = result'.toOption.isSome ∧
      (result.toOption = none → result = result')) (bindArguments arguments).run.lift
        (bindArguments arguments).run.lift := by
    intro context context'
    have gives := gives_bindArguments arguments context.bindings.length context rfl
    have gives' := gives_bindArguments arguments context'.bindings.length context' rfl
    show ResultsAgree _ (.ok ((bindArguments arguments).run context))
      (.ok ((bindArguments arguments).run context'))
    rw [gives, gives']
    refine .gave ?_
    cases arguments.mapM Value.toJson with
    | ok forms => exact ⟨rfl, fun absent => absurd absent (Option.some_ne_none _)⟩
    | error fault => exact ⟨rfl, fun _ => rfl⟩
  unfold convertComputed
  split
  · split
    · refine .bind bound ?_
      rintro result result' ⟨both, faults⟩
      cases result with
      | ok slots =>
        cases result' with
        | ok slots' => exact .pure rfl
        | error fault => exact absurd both (by simp [Except.toOption])
      | error fault =>
        rw [← faults rfl]
        exact .bind (passed _) fun _ _ _ => dropped _ _
    · exact dropped _ _
  · exact .refuse

variable (limit : Nat)

mutual

/-- A projection is delivered under a key that does not depend on what came before. -/
theorem concur_convertField : (item : Projection) → (depth : Nat) →
    Concur SameKey (convertField limit depth item) (convertField limit depth item)
  | .excluded name, _ => .refl sameKey_refl (blind_dropAttribute _ _ _)
  | .alias name path, _ => .refl sameKey_refl (blind_convertAlias name path)
  | .computed name function arguments, _ => concur_convertComputed name function arguments
  | .included name, _ => .refl sameKey_refl (.bind (blind_nameOf? name) fun _ => .pure)
  | .nested name fields, depth => by
    have inside := concur_convertFields fields depth
    unfold convertField
    refine .bind (.refl (fun _ => rfl) (blind_nameOf? name)) ?_
    rintro known _ rfl
    split
    · exact .pure rfl
    · refine .bind inside fun attributes attributes' _ => ?_
      -- The key is that of the field, with attributes inside and without.
      cases attributes <;> cases attributes' <;> exact .pure rfl
  | .resolved name, depth => by
    unfold convertField
    refine .refl sameKey_refl (.bind (blind_nameOf? name) fun known => ?_)
    split
    · exact .pure
    · split
      · exact blind_leaveUnresolved _ _
      · exact .pure
  | .expanded name fields, depth => by
    have inside := concur_convertFields fields (depth + 1)
    unfold convertField
    refine .bind (.refl (fun _ => rfl) (blind_nameOf? name)) ?_
    rintro known _ rfl
    split
    · exact .pure rfl
    · split
      · exact .refl sameKey_refl (blind_leaveUnresolved _ _)
      · exact .bind inside fun _ _ _ => .pure rfl
  | .stray _, _ => .refuse
termination_by structural item => item

/-- Projections are delivered under keys that do not depend on what came before. -/
theorem concur_convertFields : (items : List Projection) → (depth : Nat) →
    Concur SameKeys (convertFields limit depth items) (convertFields limit depth items)
  -- By induction on the items. The names of two runs' attributes are the same, as the slots they
  -- read are not part of a name.
  | [], _ => .pure rfl
  | item :: rest, depth => by
    have here := concur_convertField item depth
    have later := concur_convertFields rest depth
    have passed : Concur (fun _ _ => True) (requireKey item.name) (requireKey item.name) :=
      .refl (fun _ => trivial) (blind_requireKey _)
    unfold convertFields
    refine .bind passed fun _ _ _ => .bind here fun first first' same => ?_
    refine .bind later fun others others' same' => .pure ?_
    unfold SameKeys SameKey at *
    rw [List.map_append, List.map_append, same']
    cases first <;> cases first' <;> simp_all
termination_by structural items => items

end

/-- Whether a projection is refused does not depend on what came before. -/
theorem concur_projectionOf (settings : Settings) (query : Query) :
    Concur (fun _ _ => True) (projectionOf settings query) (projectionOf settings query) := by
  -- Reading the projection and granting a depth do not look at what is bound, and the fields behind
  -- them are converted alike.
  have top (fields : List Projection) : Concur (fun _ _ => True)
      (convertTop settings.maxResolveDepth fields) (convertTop settings.maxResolveDepth fields) := by
    refine .bind (concur_convertFields _ fields 0) ?_
    intro attributes attributes' same
    rw [all_isHashable_eq same]
    split
    · exact .pure trivial
    · exact .refuse
  have ended (fields : List Projection) : Concur (fun _ _ => True)
      (if query.projection.isNull then pure none
        else return some (← convertTop settings.maxResolveDepth fields))
      (if query.projection.isNull then pure none
        else return some (← convertTop settings.maxResolveDepth fields)) := by
    split
    · exact .pure trivial
    · exact .bind (top fields) fun _ _ _ => .pure trivial
  have granted : Concur (fun depth depth' => depth = depth') (settings.resolveDepth query)
      (settings.resolveDepth query) := .refl (fun _ => rfl) (settings.blind_resolveDepth query)
  refine .bind (.refl (fun _ => rfl) (Projection.blind_read _ _ _ _)) ?_
  rintro fields _ rfl
  refine .bind granted ?_
  rintro depth _ rfl
  dsimp only
  split
  · have noted : Concur (fun _ _ => True) (Compile.remark .resolveOutOfBand
        ("GROQ resolves references through expansion descriptors in the projection; " ++
          "resolve_references alone has no effect")) (Compile.remark .resolveOutOfBand
        ("GROQ resolves references through expansion descriptors in the projection; " ++
          "resolve_references alone has no effect")) := .refl (fun _ => trivial) .degrade
    exact .bind noted fun _ _ _ => ended fields
  · exact ended fields

end Projection

/-- Converting the parameters is never refused. -/
theorem concur_convertParameters (settings : Settings) (query : Query) :
    Concur (fun _ _ => True) (convertParameters settings query)
      (convertParameters settings query) := by
  -- The parameters are always given, whatever has been bound.
  have given (context : Context) : ∃ result, convertParameters settings query context =
      .ok result := by
    obtain ⟨notices, gives⟩ := gives_passThrough (fun _ => false) id "placeholder"
      query.params.entries ⟨context.named⟩
    have ended := gives.map fun parameters => addLocale "fallbackLocale"
      (query.fallbackLocale.orElse (settings.fallbackLocales.headD .null))
      (addLocale "locale" (query.locale.orElse settings.defaultLocale) parameters)
    exact ⟨_, ended context⟩
  intro context context'
  obtain ⟨result, gave⟩ := given context
  obtain ⟨result', gave'⟩ := given context'
  rw [gave, gave']
  exact .gave trivial

/-- What follows one filter follows another, behind the notices about it. -/
theorem finish_of_run {settings : Settings} {query : Query} {filter filter' : List Expression}
    {context context' after : Context} {result : Statement × OrderedMap Value Value}
    (ran : finish settings query filter context = .ok (result, after)) :
    ∃ result after, finish settings query filter' context' = .ok (result, after) ∧
      context'.notices <+: after.notices := by
  -- What follows the filter refuses the same whatever the filter was, so that it succeeds here too,
  -- and it only adds notices.
  have concur : Concur (fun _ _ => True) (finish settings query filter)
      (finish settings query filter') := by
    have sorted : Concur (fun _ _ => True) (convertOrder query.order) (convertOrder query.order) :=
      .refl (fun _ => trivial) (blind_convertOrder query.order)
    have cut : Concur (fun _ _ => True) (convertSlice settings query)
        (convertSlice settings query) :=
      .refl (fun _ => trivial) (blind_convertSlice settings query)
    refine .bind sorted fun _ _ _ => .bind cut fun _ _ _ => ?_
    refine .bind (concur_projectionOf settings query) fun _ _ _ => ?_
    exact .bind (concur_convertParameters settings query) fun _ _ _ => .pure trivial
  obtain ⟨⟨result', after'⟩, ran', -⟩ := (concur context context').of_ok ran
  obtain ⟨-, given, listed, -⟩ := (steady_finish settings query filter').of_run ran'
  exact ⟨result', after', ran', listed ▸ List.prefix_append _ _⟩

/-- A query that runs without conditions runs with any, and is told of every leaf that is lost. -/
theorem told_of_run {settings : Settings} {query : Query} {own : List Condition}
    {bare : Compiled Statement Value} (lenient : settings.strict.isTruthy = false)
    (ran : Compiled.run .groq settings (convertQuery settings query []) = .ok bare) :
    ∃ compiled, Compiled.run .groq settings (convertQuery settings query own) = .ok compiled ∧
      Told carries (leavesAll own) compiled.notices := by
  -- Without the query's own conditions it compiles, and they only bind literals and add notices; so
  -- it compiles with them.
  rw [convertQuery_eq] at ran ⊢
  obtain ⟨after, gave, -, -⟩ := Compiled.ok_of_run ran
  obtain ⟨filter, between, -, ended⟩ := Compile.ok_of_bind gave
  obtain ⟨parts, literals, notices, gives, told⟩ := ensures_filterParts_told settings query own
  have converted : (filterParts settings query own).lift .empty =
      .ok (parts, ⟨literals, notices⟩) := congrArg Except.ok (gives .empty rfl)
  obtain ⟨compiled, ran', kept⟩ := Compiled.run_of_gives lenient converted (finish_of_run ended)
  exact ⟨compiled, ran', told.within kept.subset⟩

/-- A query that compiles without conditions comes to what the leaves of its own conditions do. -/
theorem compile_comesTo {settings : Settings} {query : Query} {own : List Condition}
    {bare : Compiled Statement Value} (lenient : settings.strict.isTruthy = false)
    (built : compile settings query [] = .ok bare) :
    ComesTo refusal? carries (fun _ => false) (leavesAll own) Compiled.notices
      (compile settings query own) := by
  obtain ⟨everywhere, ran⟩ := Groq.run_of_compile built
  have forms : canConvertAll (own ++ settings.globalFilter.conditionList) = canConvertAll own := by
    rw [List.nil_append] at everywhere
    rw [canConvertAll_append, everywhere, Bool.and_true]
  unfold ComesTo
  rw [findSome?_leavesAll]
  -- A leaf that refuses does so before anything is converted, and no other is left to refuse.
  cases converts : canConvertAll own with
  | false =>
    show compile settings query own = .error .unwritable
    unfold compile
    rw [forms, converts]
    rfl
  | true =>
    rw [Groq.compile_of_run (forms.trans converts)]
    exact .inl (told_of_run lenient ran)

end ContentQuery.Groq
