import ContentQuery.Proofs.PassThrough

/-! What a request is made of: its filter is the converted one, and no notice about it is lost. -/

namespace ContentQuery.Contentful

open Compile (Steady)
open scoped List

/-- Dropping a field of a projection looks at no notice. -/
theorem steady_dropField (reason : Reason) (message : String) (name : Value) :
    (dropField reason message name).Steady fun _ => True :=
  .bind .requireWritten fun _ => .bind .degrade fun _ => .pure trivial

/-- Selecting a name looks at no notice. -/
theorem steady_keyOfName (name : String) : (keyOfName name).Steady fun _ => True := by
  -- A name is either a key, or dropped with a notice.
  unfold keyOfName
  split
  · exact .pure trivial
  · split
    · exact steady_dropField _ _ _
    · exact .pure trivial

/-- Selecting the key of a projection looks at no notice. -/
theorem steady_selectedKey (item : Projection) : (selectedKey item).Steady fun _ => True := by
  -- Sub-fields are noted only where their field is selected at all.
  have named (key : Option String) (name : String) :
      Steady (do
        if key.isSome then
          Compile.degrade .nestedProjection
            s!"Contentful select cannot pick sub-fields; selecting all of '{name}'" (.text name)
            .null
        return key) fun _ => True := by
    split
    · exact .bind .degrade fun _ => .pure trivial
    · exact .pure trivial
  unfold selectedKey
  dsimp only
  split
  · exact steady_dropField _ _ _
  · exact steady_dropField _ _ _
  · exact steady_dropField _ _ _
  · exact .bind (steady_keyOfName _) fun key => named key _
  · exact steady_keyOfName _
  · exact .refuse

/-- Selecting the keys of projections looks at no notice. -/
theorem steady_selectKeys (items : List Projection) (selected : List String) :
    (selectKeys selected items).Steady fun _ => True := by
  -- A key that was selected before is not selected again, and neither case leaves a notice.
  induction items generalizing selected with
  | nil => exact .pure trivial
  | cons item rest ih =>
    refine .bind (steady_selectedKey item) fun key => ?_
    cases key with
    | some key => exact ih _
    | none => exact ih selected

/-- Choosing what is delivered looks at no notice. -/
theorem steady_selectionOf (settings : Settings) (query : Query) :
    (selectionOf settings query).Steady fun _ => True := by
  -- Reading the projection binds nothing, and neither do the keys selected from it.
  unfold selectionOf
  split
  · exact .pure trivial
  · exact .bind (Projection.blind_read _ _ _ _).steady fun fields =>
      .bind (steady_selectKeys fields _) fun _ => .bind .ofExcept fun _ => .pure trivial

/-- Reading a field path looks at no notice. -/
theorem steady_path (field : Value) (role : String) :
    (pathOf? field role).Steady fun _ => True := by
  -- A notice or a refusal is all that a bad path leads to.
  unfold pathOf?
  split
  · split
    · exact .pure trivial
    · exact .bind .degrade fun _ => .pure trivial
  · exact .bind .degrade fun _ => .pure trivial
  · exact .refuse

/-- Choosing an order looks at no notice. -/
theorem steady_orderClauses (entries : List Value) :
    (orderClauses entries).Steady fun _ => True := by
  -- By induction on the entries; a clause is left out when its field is no path.
  induction entries with
  | nil => exact .pure trivial
  | cons entry rest ih =>
    have joined (clause : List String) :
        Steady (do return clause ++ (← orderClauses rest)) fun _ => True :=
      .bind ih fun _ => .pure trivial
    refine .bind .ofExcept fun field => .bind (steady_path field "order") fun path => ?_
    cases path with
    | none => exact joined []
    | some path => exact .bind .ofExcept fun direction => joined _

/-- Choosing a window looks at no notice. -/
theorem steady_windowOf (settings : Settings) (query : Query) :
    (windowOf settings query).Steady fun _ => True := by
  -- The window may be noted as bounded, and is given in any case.
  unfold windowOf
  dsimp only
  split
  · exact .bind .degrade fun _ => .pure trivial
  · exact .pure trivial

/-- Choosing a locale looks at no notice. -/
theorem steady_localeOf (settings : Settings) (everyLocale : Value) (query : Query) :
    (localeOf settings everyLocale query).Steady fun _ => True := by
  -- A fallback is noted, and the locale is chosen without looking at it.
  have chosen : Steady (if query.locale.isTruthy then return query.locale
      else if everyLocale.isTruthy then return .text "*" else return settings.defaultLocale)
      fun _ => True := by
    split
    · exact .pure trivial
    · split <;> exact .pure trivial
  unfold localeOf
  dsimp only
  split
  · exact .bind .degrade fun _ => chosen
  · exact chosen

/-- Choosing the depth of references looks at no notice. -/
theorem steady_includeOf (settings : Settings) (query : Query) (expansions : Nat) :
    (includeOf settings query expansions).Steady fun _ => True := by
  refine .bind (settings.blind_resolveWith query expansions).steady fun depth => ?_
  split
  · exact .pure trivial
  · exact .pure trivial

/-- What a compiler for this target gives is a request. -/
theorem request_of_output {settings : Settings} {everyLocale : Value} {query : Query}
    {conditions : List Condition} {compiled : Request}
    (built : (Compiler.contentful settings everyLocale).compileConditions query conditions =
      .ok (.request compiled)) :
    compile settings everyLocale query conditions = .ok compiled :=
  ok_of_map (fun _ _ same => Output.request.inj same) built

/-- The names of the parameters that are compiled from what a query has beside its filter. -/
def optionNames : List String :=
  ["select", "order", "skip", "limit", "locale", "include"]

/-- The parameters that are compiled from what a query has beside its filter. -/
def optionsOf (settings : Settings) (everyLocale : Value) (query : Query) :
    Compile (OrderedMap Value Value) := do
  let (selection, expansions) ← selectionOf settings query
  let order := ",".intercalate (← orderClauses query.order)
  let (skip, limit) ← windowOf settings query
  let locale ← localeOf settings everyLocale query
  let depth ← includeOf settings query expansions
  return ⟨
    entry? "select" (selection.map .text)
      ++ entry? "order" (if order.isEmpty then none else some (.text order))
      ++ entry? "skip" (if skip == 0 then none else some (.int skip))
      ++ entry? "limit" (limit.map fun count => .int count)
      ++ entry? "locale" (if locale.isTruthy then some locale else none)
      ++ entry? "include" (depth.map fun levels => .int levels)⟩

/-- An entry is under its name, if there is one. -/
theorem keys_entry (name : String) (value : Option Value) :
    List.map Prod.fst ( entry? name value) <+ [.text name] := by
  cases value <;> simp [ entry?]

/-- Choosing the parameters beside the filter looks at no notice, and each has its own name. -/
theorem steady_optionsOf (settings : Settings) (everyLocale : Value) (query : Query) :
    (optionsOf settings everyLocale query).Steady fun own =>
      own.keys <+ optionNames.map Value.text := by
  -- The options come in the order of their names, and each is there once or not at all.
  refine .bind (steady_selectionOf settings query) fun selection =>
    .bind (steady_orderClauses query.order) fun clauses =>
      .bind (steady_windowOf settings query) fun window =>
        .bind (steady_localeOf settings everyLocale query) fun locale =>
          .bind (steady_includeOf settings query _) fun depth => .pure ?_
  simp only [OrderedMap.keys, List.map_append]
  exact (((((keys_entry _ _).append (keys_entry _ _)).append (keys_entry _ _)).append
    (keys_entry _ _)).append (keys_entry _ _)).append (keys_entry _ _)

/-- What follows the filter of a query. -/
def finish (settings : Settings) (everyLocale : Value) (query : Query) (filter : FilterMap) :
    Compile (FilterMap × OrderedMap Value Value) := do
  let own ← optionsOf settings everyLocale query
  let parameters ←
    passThrough (convertQuery.inFilter filter) "parameter" id query.params.entries own
  return (filter, parameters)

/-- A query is converted by converting its filter and then the rest. -/
theorem convertQuery_eq (settings : Settings) (everyLocale : Value) (query : Query)
    (conditions : List Condition) :
    convertQuery settings everyLocale query conditions =
      filterOf settings query conditions >>= finish settings everyLocale query := by
  unfold convertQuery finish optionsOf
  simp only [bind_assoc, pure_bind]

/-- What follows the filter takes it over, and passes on what is not in it. -/
theorem steady_finish (settings : Settings) (everyLocale : Value) (query : Query)
    (filter : FilterMap) :
    (finish settings everyLocale query filter).Steady fun result => result.1 = filter ∧
      ∃ own : OrderedMap Value Value, own.keys <+ optionNames.map Value.text ∧
        result.2 = passed (convertQuery.inFilter filter) id query.params.entries own :=
  (steady_optionsOf settings everyLocale query).followed fun own names =>
    (steady_passThrough _ _ _ _ _).followed fun _ same => .pure ⟨rfl, own, names, same⟩

/--
The filter of a compiled query is the converted one, its other parameters are compiled or passed
through, and the notices about the filter are all there.
-/
theorem parts_of_compile {settings : Settings} {everyLocale : Value} {query : Query}
    {conditions : List Condition} {compiled : Request}
    (ran : compile settings everyLocale query conditions = .ok compiled) :
    ∃ after, filterOf settings query conditions .empty = .ok (compiled.query, after) ∧
      after.notices <+: compiled.notices ∧
        ∃ own : OrderedMap Value Value, own.keys <+ optionNames.map Value.text ∧
          compiled.parameters =
            passed (convertQuery.inFilter compiled.query) id query.params.entries own := by
  -- The filter is converted first, and each later part only adds notices.
  replace ran := (run_of_compile ran).1
  rw [convertQuery_eq] at ran
  obtain ⟨filter, after, others, converted, ⟨same, given⟩, listed, -⟩ := Compiled.of_run
    (fun filter result parameters => result = filter ∧
      ∃ own : OrderedMap Value Value, own.keys <+ optionNames.map Value.text ∧
        parameters = passed (convertQuery.inFilter filter) id query.params.entries own)
    ran (steady_finish settings everyLocale query)
  rw [same, listed]
  exact ⟨after, converted, List.prefix_append _ _, given⟩

/-- The filter of a compiled query is the converted one, and the notices about it are all there. -/
theorem filter_of_compile {settings : Settings} {everyLocale : Value} {query : Query}
    {conditions : List Condition} {compiled : Request}
    (ran : compile settings everyLocale query conditions = .ok compiled) :
    ∃ after, filterOf settings query conditions .empty = .ok (compiled.query, after) ∧
      after.notices <+: compiled.notices := by
  obtain ⟨after, converted, kept, -⟩ := parts_of_compile ran
  exact ⟨after, converted, kept⟩

end ContentQuery.Contentful
