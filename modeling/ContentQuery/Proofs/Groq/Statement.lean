import ContentQuery.Groq.Statement
import ContentQuery.Proofs.Groq.Literals
import ContentQuery.Proofs.PassThrough

/-! What a statement is made of: its filter is the converted one, and no notice about it is lost. -/

namespace ContentQuery.Groq

open Compile (Steady)

/-- Dropping an attribute looks at nothing before it. -/
theorem blind_dropAttribute (reason : Reason) (message : String) (name : Value) :
    (dropAttribute reason message name).Blind :=
  .bind .degrade fun _ => .pure

/-- Converting an alias looks at nothing before it. -/
theorem blind_convertAlias (name path : Value) :
    (convertAlias name path).Blind := by
  -- A notice is all that a dropped alias leaves, and nothing is bound by a kept one.
  have dropped : (convertAlias.drop name path).Blind :=
    .bind .requireWritten fun _ => blind_dropAttribute _ _ _
  unfold convertAlias
  split
  · split
    · exact .pure
    · exact dropped
  · exact dropped

/-- The forms of arguments bind no literal. -/
theorem ensures_forms (arguments : List Value) (slot : Nat) :
    Literally.Ensures (arguments.mapM fun argument => ExceptT.mk (pure argument.toJson)) slot
      fun _ _ => True := by
  -- By induction on the arguments; nothing is bound while their forms are made.
  induction arguments generalizing slot with
  | nil => exact .pure trivial
  | cons argument rest ih =>
    rw [List.mapM_cons]
    have form : Literally.Ensures (ExceptT.mk (pure argument.toJson)) slot fun _ _ => True :=
      .ofExcept fun _ _ => trivial
    exact .bind form fun _ _ _ => .bind (ih _) fun _ _ _ => .pure trivial

/-- Arguments are converted and then bound, and neither leaves a notice. -/
theorem ensures_bindArguments (arguments : List Value) (slot : Nat) :
    (bindArguments arguments).Ensures slot fun _ _ => True :=
  .bind (ensures_forms arguments slot) fun forms _ _ =>
    (ensures_placeholders forms _).mono fun _ _ _ => trivial

/-- Converting a computed attribute looks at no notice. -/
theorem steady_convertComputed (name function : Value) (arguments : List Value) :
    (convertComputed name function arguments).Steady fun _ => True := by
  -- What is bound follows the slots in use, and the slots decide nothing else.
  unfold convertComputed
  split
  · split
    · have lifted : (bindArguments arguments).run.lift.Steady fun _ => True :=
        .lift fun slot => Convert.Ensures.mono (ensures_bindArguments arguments slot)
          fun _ _ _ _ => trivial
      refine .bind lifted fun result => ?_
      split
      · exact .pure trivial
      · exact Compile.Blind.steady (.bind .requireWritten fun _ => blind_dropAttribute _ _ _)
    · exact (blind_dropAttribute _ _ _).steady
  · exact .refuse

/-- Reading the name of an attribute looks at nothing before it. -/
theorem blind_nameOf? (name : Value) : (nameOf? name).Blind := by
  -- The name is checked by itself.
  unfold nameOf?
  split
  · split
    · exact .pure
    · exact .bind .degrade fun _ => .pure
  · exact .refuse

/-- Leaving a reference unresolved looks at nothing before it. -/
theorem blind_leaveUnresolved (limit : Nat) (name : String) :
    (leaveUnresolved limit name).Blind :=
  .bind .degrade fun _ => .pure

/-- Asking for a key looks at nothing before it. -/
theorem blind_requireKey (name : Value) : (requireKey name).Blind := by
  unfold requireKey
  split
  · exact .requireWritten
  · exact .refuse

mutual

/-- Converting a projection looks at no notice. -/
theorem steady_convertField (limit depth : Nat) :
    (item : Projection) → (convertField limit depth item).Steady fun _ => True
  -- Each kind of item is converted by its name and by what is below it.
  | .excluded _ => (blind_dropAttribute _ _ _).steady
  | .alias name path => (blind_convertAlias name path).steady
  | .computed name function arguments => steady_convertComputed name function arguments
  | .included name => .bind (blind_nameOf? name).steady fun _ => .pure trivial
  | .nested name fields => by
    have fieldsKeep := steady_convertFields limit depth fields
    unfold convertField
    refine .bind (blind_nameOf? name).steady fun known => ?_
    split
    · exact .pure trivial
    · refine .bind fieldsKeep fun attributes => ?_
      split <;> exact .pure trivial
  | .resolved name => by
    unfold convertField
    refine .bind (blind_nameOf? name).steady fun known => ?_
    split
    · exact .pure trivial
    · split
      · exact (blind_leaveUnresolved _ _).steady
      · exact .pure trivial
  | .expanded name fields => by
    have fieldsKeep := steady_convertFields limit (depth + 1) fields
    unfold convertField
    refine .bind (blind_nameOf? name).steady fun known => ?_
    split
    · exact .pure trivial
    · split
      · exact (blind_leaveUnresolved _ _).steady
      · exact .bind fieldsKeep fun _ => .pure trivial
  | .stray _ => .refuse
termination_by structural item => item

/-- Converting projections looks at no notice. -/
theorem steady_convertFields (limit depth : Nat) :
    (items : List Projection) → (convertFields limit depth items).Steady fun _ => True
  -- By induction on the items; a key is checked before its item is converted.
  | [] => .pure trivial
  | item :: rest =>
    .bind (blind_requireKey _).steady fun _ => .bind (steady_convertField limit depth item) fun _ =>
      .bind (steady_convertFields limit depth rest) fun _ => .pure trivial
termination_by structural items => items

end

/-- Whether keys can be told apart in a set depends on nothing else in their attributes. -/
theorem all_isHashable_eq {attributes attributes' : List Attribute}
    (same : attributes.map Attribute.key = attributes'.map Attribute.key) :
    attributes.all (·.key.isHashable) = attributes'.all (·.key.isHashable) := by
  have listed := congrArg (List.all · Value.isHashable) same
  simpa [List.all_map, Function.comp_def] using listed

/-- Converting the projection of a query looks at no notice. -/
theorem steady_projectionOf (settings : Settings) (query : Query) :
    (projectionOf settings query).Steady fun _ => True := by
  have top (fields : List Projection) :
      (convertTop settings.maxResolveDepth fields).Steady fun _ => True := by
    refine .bind (steady_convertFields _ _ _) fun attributes => ?_
    split
    · exact .pure trivial
    · exact .refuse
  -- Whether the depth is noted or not, the fields are converted in the same way.
  have ended (fields : List Projection) :
      Compile.Steady (if query.projection.isNull then pure none
        else return some (← convertTop settings.maxResolveDepth fields)) fun _ => True := by
    split
    · exact .pure trivial
    · exact .bind (top fields) fun _ => .pure trivial
  refine .bind (Projection.blind_read _ _ _ _).steady fun fields =>
    .bind (settings.blind_resolveDepth query).steady fun depth => ?_
  dsimp only
  split
  · exact .bind .degrade fun _ => ended fields
  · exact ended fields

/-- A projection is converted from the fields that are read, and no literal is bound besides. -/
theorem fields_of_projectionOf {settings : Settings} {query : Query} {context after : Context}
    {projection : Option (List Attribute)}
    (ran : projectionOf settings query context = .ok (projection, after)) :
    ∃ fields notices,
      (Projection.readTop settings.depthLimit query.projection).Gives fields notices ∧
        (query.projection.isNull = true ∧ projection = none ∧ after.bindings = context.bindings ∨
          ∃ between attributes, between.bindings = context.bindings ∧
            convertFields settings.maxResolveDepth 0 fields between = .ok (attributes, after) ∧
              projection = some attributes) := by
  unfold projectionOf at ran
  obtain ⟨fields, _, read, ran⟩ := Compile.ok_of_bind ran
  obtain ⟨notices, rfl, gives, -⟩ := (Projection.blind_read _ _ _ _).of_run read
  obtain ⟨depth, _, granted, ran⟩ := Compile.ok_of_bind ran
  obtain ⟨notices', rfl, -, -⟩ := (settings.blind_resolveDepth query).of_run granted
  refine ⟨fields, notices, gives, ?_⟩
  -- Whether the depth is noted or not, the fields are converted in the same way.
  have ended {between : Context} (same : between.bindings = context.bindings)
      (ran : (if query.projection.isNull then pure none
        else return some (← convertTop settings.maxResolveDepth fields) : Compile _) between =
          .ok (projection, after)) :
      query.projection.isNull = true ∧ projection = none ∧ after.bindings = context.bindings ∨
        ∃ between attributes, between.bindings = context.bindings ∧
          convertFields settings.maxResolveDepth 0 fields between = .ok (attributes, after) ∧
            projection = some attributes := by
    split at ran
    · rename_i null
      cases ran
      exact .inl ⟨null, rfl, same⟩
    · obtain ⟨attributes, _, top, ran⟩ := Compile.ok_of_bind ran
      cases ran
      obtain ⟨attributes', _, converted, top⟩ := Compile.ok_of_bind top
      split at top
      · cases top
        exact .inr ⟨between, _, same, converted, rfl⟩
      · exact nomatch top
  dsimp only at ran
  split at ran
  · obtain ⟨_, _, noted, ran⟩ := Compile.ok_of_bind ran
    cases noted
    exact ended (by simp [Context.extend, Context.note]) ran
  · exact ended (by simp [Context.extend]) ran

/-- Converting a sort order looks at nothing before it. -/
theorem blind_convertOrder (entries : List Value) :
    (convertOrder entries).Blind := by
  induction entries with
  | nil => exact .pure
  | cons entry rest ih =>
    have joined (clause : List (String × Direction)) :
        Compile.Blind (do return clause ++ (← convertOrder rest)) :=
      .bind ih fun _ => .pure
    -- An entry is converted or dropped, and the rest follows in both cases.
    have dropped (field : Value) : (convertOrder.drop field).Blind :=
      .bind .requireWritten fun _ => .bind .degrade fun _ => .pure
    unfold convertOrder
    refine .bind .ofExcept fun field => ?_
    dsimp only
    split
    · split
      · exact .bind .ofExcept fun _ => joined _
      · exact .bind (dropped _) joined
    · exact .bind (dropped _) joined

/-- Converting a slice looks at nothing before it. -/
theorem blind_convertSlice (settings : Settings) (query : Query) :
    (convertSlice settings query).Blind := by
  -- The slice is made of the page alone.
  have cut : Compile.Blind (do
      let slice := Slice.ofPage (settings.page query)
      Compile.requireWritten slice.isWritable
      return slice) :=
    .bind .requireWritten fun _ => .pure
  unfold convertSlice
  dsimp only
  split
  · exact .bind .degrade fun _ => cut
  · exact cut

/-- The placeholders are named one after the other. -/
theorem keys_named (context : Context) : (⟨context.named⟩ : OrderedMap Value Value).keys =
    (List.range' 0 context.bindings.length).map (.text <| Context.slotName ·) := by
  rw [← List.zipIdx_map_snd 0 context.bindings, OrderedMap.keys, Context.named, List.map_map,
    List.map_map]
  rfl

/-- Converting the parameters looks at the literals that were bound, and at no notice. -/
theorem steady_convertParameters (settings : Settings) (query : Query) :
    (convertParameters settings query).Steady fun _ => True := by
  unfold convertParameters
  exact .literals (fun _ => (steady_passThrough _ _ _ _ _).followed fun _ _ => .pure trivial)
    fun _ _ => rfl

/-- What a compiler for this target gives is a statement. -/
theorem statement_of_output {settings : Settings} {query : Query} {conditions : List Condition}
    {compiled : Compiled Statement Value}
    (built : (Compiler.groq settings).compileConditions query conditions =
      .ok (.statement compiled)) :
    compile settings query conditions = .ok compiled :=
  ok_of_map (fun _ _ same => Output.statement.inj same) built

/-- What follows the filter of a query. -/
def finish (settings : Settings) (query : Query) (filter : List Expression) :
    Compile (Statement × OrderedMap Value Value) := do
  let order ← convertOrder query.order
  let slice ← convertSlice settings query
  let projection ← projectionOf settings query
  let parameters ← convertParameters settings query
  return (⟨filter, order, slice, projection⟩, parameters)

/-- A query is converted by converting its filter and then the rest. -/
theorem convertQuery_eq (settings : Settings) (query : Query) (conditions : List Condition) :
    convertQuery settings query conditions =
      (filterParts settings query conditions).lift >>= finish settings query :=
  rfl

/-- What follows the filter looks at no notice and takes the filter over. -/
theorem steady_finish (settings : Settings) (query : Query) (filter : List Expression) :
    (finish settings query filter).Steady fun result => result.1.filter = filter :=
  -- What follows the filter passes it on untouched.
  .bind (blind_convertOrder _).steady fun _ =>
    .bind (blind_convertSlice settings query).steady fun _ =>
      .bind (steady_projectionOf settings query) fun _ =>
        .bind (steady_convertParameters settings query) fun _ => .pure rfl

/-- The filter of a compiled query is the converted one, and the notices about it are all there. -/
theorem filter_of_compile {settings : Settings} {query : Query} {conditions : List Condition}
    {compiled : Compiled Statement Value}
    (ran : compile settings query conditions = .ok compiled) :
    ∃ after, filterParts settings query conditions .empty = (compiled.query.filter, after) ∧
      after.notices <+: compiled.notices := by
  -- The filter is converted first, and each later part only adds notices.
  replace ran := (run_of_compile ran).2
  rw [convertQuery_eq] at ran
  obtain ⟨filter, after, others, converted, same, listed, -⟩ := Compiled.of_run
    (fun filter statement _ => statement.filter = filter) ran (steady_finish settings query)
  rw [same, listed]
  exact ⟨after, Except.ok.inj converted, List.prefix_append _ _⟩

/-- A compiled query has the parts that are converted one after the other. -/
theorem stages_of_compile {settings : Settings} {query : Query} {conditions : List Condition}
    {compiled : Compiled Statement Value}
    (ran : compile settings query conditions = .ok compiled) :
    ∃ filtered sorted before projected final,
      filterParts settings query conditions .empty = (compiled.query.filter, filtered) ∧
        convertOrder query.order filtered = .ok (compiled.query.order, sorted) ∧
        convertSlice settings query sorted = .ok (compiled.query.slice, before) ∧
        before.bindings = filtered.bindings ∧
        projectionOf settings query before = .ok (compiled.query.projection, projected) ∧
        convertParameters settings query projected = .ok (compiled.parameters, final) := by
  obtain ⟨final, gave, -⟩ := Compiled.ok_of_run (run_of_compile ran).2
  obtain ⟨filter, filtered, converted, gave⟩ := Compile.ok_of_bind gave
  -- Neither the order nor the slice binds a literal.
  obtain ⟨order, _, sorted, gave⟩ := Compile.ok_of_bind gave
  obtain ⟨notices, rfl, -⟩ := (blind_convertOrder query.order).of_run sorted
  obtain ⟨slice, _, cut, gave⟩ := Compile.ok_of_bind gave
  obtain ⟨notices', rfl, -⟩ := (blind_convertSlice settings query).of_run cut
  obtain ⟨projection, projected, made, gave⟩ := Compile.ok_of_bind gave
  obtain ⟨parameters, last, given, gave⟩ := Compile.ok_of_bind gave
  obtain ⟨same, rfl⟩ := Prod.mk.inj (Except.ok.inj gave)
  obtain ⟨whole, rfl⟩ := Prod.mk.inj same
  rw [← whole]
  exact ⟨filtered, _, _, projected, _, Except.ok.inj converted, sorted, cut,
    by simp [Context.extend], made, given⟩

end ContentQuery.Groq
