import ContentQuery.Proofs.PassThrough

/-! What a scroll is made of: its filter is the converted one, and no notice about it is lost. -/

namespace ContentQuery.Qdrant

open Compile (Steady)
open scoped List

/-- Dropping a field that is no payload key looks at no notice. -/
theorem steady_dropInvalid (path : String) (lists : KeyLists) :
    (dropInvalid path lists).Steady fun _ => True :=
  .bind .degrade fun _ => .pure trivial

/-- Selecting a payload key looks at no notice. -/
theorem steady_addIncluded (payloadPrefix : Value) (path : String) (lists : KeyLists) :
    (addIncluded payloadPrefix path lists).Steady fun _ => True := by
  unfold addIncluded
  split
  · exact .pure trivial
  · exact steady_dropInvalid path lists

mutual

/-- Collecting the payload keys of a projection looks at no notice. -/
theorem steady_collect (payloadPrefix : Value) : (item : Projection) → (above : String) →
    (lists : KeyLists) → (collect payloadPrefix above lists item).Steady fun _ => True
  | .alias _ _, _, _ => .bind .degrade fun _ => .pure trivial
  | .computed _ _ _, _, _ => .bind .degrade fun _ => .pure trivial
  | .nested name fields, above, lists => by
    -- The fields inside are collected under a longer path.
    have fieldsKeep := steady_collectAll payloadPrefix fields (above ++ name.display ++ ".") lists
    unfold collect
    dsimp only
    split
    · exact fieldsKeep
    · exact steady_dropInvalid _ lists
  | .excluded name, above, lists => by
    unfold collect
    dsimp only
    split
    · exact .pure trivial
    · exact steady_dropInvalid _ lists
  | .included _, _, lists => steady_addIncluded payloadPrefix _ lists
  | .resolved _, _, lists => steady_addIncluded payloadPrefix _ lists
  | .expanded _ _, _, lists => steady_addIncluded payloadPrefix _ lists
  | .stray _, _, _ => .refuse
termination_by structural item => item

/-- Collecting the payload keys of projections looks at no notice. -/
theorem steady_collectAll (payloadPrefix : Value) : (items : List Projection) → (above : String) →
    (lists : KeyLists) → (collectAll payloadPrefix above lists items).Steady fun _ => True
  -- By induction on the items, which extend the lists one after another.
  | [], _, _ => .pure trivial
  | item :: rest, above, lists =>
    .bind .requireWritten fun _ =>
      .bind (steady_collect payloadPrefix item above lists) fun extended =>
        steady_collectAll payloadPrefix rest above extended
termination_by structural items => items

end

/-- Choosing between inclusions and exclusions looks at no notice. -/
theorem steady_selectorOf (lists : KeyLists) : (selectorOf lists).Steady fun _ => True := by
  -- Either keys are included or they are excluded, and at most a notice is left.
  unfold selectorOf
  split
  · dsimp only
    split
    · exact .bind .degrade fun _ => .pure trivial
    · exact .pure trivial
  · split <;> exact .pure trivial

/-- Choosing what is delivered looks at no notice. -/
theorem steady_payloadOf (configuration : Configuration) (query : Query) :
    (payloadOf configuration query).Steady fun _ => True := by
  -- Neither reading the projection nor collecting its keys binds anything.
  unfold payloadOf
  split
  · exact .pure trivial
  · exact .bind (Projection.blind_read _ _ _ _).steady fun fields =>
      .bind (steady_collectAll _ fields _ _) fun lists =>
        .bind (steady_selectorOf lists) fun _ => .bind .ofExcept fun _ => .pure trivial

/-- Choosing an order looks at no notice. -/
theorem steady_orderOf (payloadPrefix : Value) (entries : List Value)
    (found : Option (String × Direction)) :
    (orderOf payloadPrefix found entries).Steady fun _ => True := by
  -- An order that was found stays, so that the found entry is general in the induction.
  induction entries generalizing found with
  | nil => exact .pure trivial
  | cons entry rest ih =>
    unfold orderOf
    refine .bind .ofExcept fun field => ?_
    split
    · split
      · exact .bind .degrade fun _ => ih _
      · split
        · exact .bind .degrade fun _ => ih _
        · exact .bind .ofExcept fun _ => ih _
    · exact .refuse

/-- Choosing a limit looks at no notice. -/
theorem steady_limitOf (settings : Settings) (query : Query) :
    (limitOf settings query).Steady fun _ => True := by
  -- The limit is clamped with a notice, or is given as it is.
  unfold limitOf
  dsimp only
  split
  · exact .bind .degrade fun _ => .pure trivial
  · exact .pure trivial

/-- Choosing where to go on looks at no notice. -/
theorem steady_cursorOf (query : Query) (ordered : Bool) :
    (cursorOf query ordered).Steady fun _ => True := by
  -- A cursor beside an order is left out with a notice.
  unfold cursorOf
  split
  · exact .pure trivial
  · split
    · exact .bind .degrade fun _ => .pure trivial
    · exact .pure trivial

/-- What a compiler for this target gives is a scroll. -/
theorem scroll_of_output {configuration : Configuration} {query : Query}
    {conditions : List Condition} {compiled : Scroll}
    (built : (Compiler.qdrant configuration).compileConditions query conditions =
      .ok (.scroll compiled)) :
    compile configuration query conditions = .ok compiled :=
  ok_of_map (fun _ _ same => Output.scroll.inj same) built

/-- The names of the options that are compiled from a query. -/
def optionNames : List String :=
  ["with_payload", "order_by", "limit", "offset", "resolve_depth"]

/-- The options of a scroll that are compiled from a query. -/
def optionsOf (configuration : Configuration) (query : Query) :
    Compile (OrderedMap Value Argument) := do
  let (payload, expansions) ← payloadOf configuration query
  let order ← orderOf configuration.payloadPrefix none query.order
  let limit ← limitOf configuration.settings query
  let cursor ← cursorOf query order.isSome
  let depth ← configuration.settings.resolveWith query expansions
  if query.locale.isTruthy || query.fallbackLocale.isTruthy then
    Compile.remark .unsupportedLocale "Qdrant payloads are not localized; locale ignored"
  return ⟨
    entry? "with_payload" (some payload)
      ++ entry? "order_by" (order.map fun (key, direction) => .order key direction)
      ++ entry? "limit" (limit.map fun count => .value (.int count))
      ++ entry? "offset" (cursor.map .value)
      ++ entry? "resolve_depth" (if depth == 0 then none else some (.value (.int depth)))⟩

/-- What follows the filter of a query. -/
def finish (configuration : Configuration) (query : Query) (filter : Option Clause) :
    Compile (Option Clause × OrderedMap Value Argument) := do
  let own ← optionsOf configuration query
  let parameters ← passThrough (fun _ => false) "parameter" .value query.params.entries own
  return (filter, parameters)

/-- A query is converted by converting its filter and then the rest. -/
theorem convertQuery_eq (configuration : Configuration) (query : Query)
    (conditions : List Condition) :
    convertQuery configuration query conditions =
      filterOf configuration query conditions >>= finish configuration query := by
  unfold convertQuery finish optionsOf
  refine bind_congr fun filter => ?_
  simp only [bind_assoc]
  refine bind_congr fun (payload, expansions) => ?_
  dsimp only
  refine bind_congr fun order => bind_congr fun limit => bind_congr fun cursor =>
    bind_congr fun depth => ?_
  -- The notice about locales stands between parts that are the same with and without it.
  split <;> simp only [bind_assoc, pure_bind]

/-- An entry is under its name, if there is one. -/
theorem keys_entry (name : String) (argument : Option Argument) :
    List.map Prod.fst ( entry? name argument) <+ [.text name] := by
  cases argument <;> simp [ entry?]

/-- Choosing the options of a scroll looks at no notice, and each has its own name. -/
theorem steady_optionsOf (configuration : Configuration) (query : Query) :
    (optionsOf configuration query).Steady fun own =>
      own.keys <+ optionNames.map Value.text := by
  have named (payload : Option Argument) (order : Option Argument) (limit : Option Argument)
      (cursor : Option Argument) (depth : Option Argument) :
      OrderedMap.keys ⟨ entry? "with_payload" payload ++ entry? "order_by" order ++
        entry? "limit" limit ++ entry? "offset" cursor ++ entry? "resolve_depth" depth⟩ <+
          optionNames.map Value.text := by
    simp only [OrderedMap.keys, List.map_append]
    exact ((((keys_entry _ _).append (keys_entry _ _)).append (keys_entry _ _)).append
      (keys_entry _ _)).append (keys_entry _ _)
  refine .bind (steady_payloadOf configuration query) fun payload =>
    .bind (steady_orderOf _ _ _) fun order =>
      .bind (steady_limitOf _ query) fun limit =>
        .bind (steady_cursorOf query _) fun cursor =>
          .bind (Settings.blind_resolveWith _ query _).steady fun depth => ?_
  -- With and without the notice about locales, the options are the same.
  dsimp only
  split
  · exact .bind .degrade fun _ => .pure (named _ _ _ _ _)
  · exact .pure (named _ _ _ _ _)

/-- What follows the filter looks at no notice and takes the filter over. -/
theorem steady_finish (configuration : Configuration) (query : Query) (filter : Option Clause) :
    (finish configuration query filter).Steady fun result => result.1 = filter :=
  (steady_optionsOf configuration query).followed fun _ _ =>
    (steady_passThrough _ _ _ _ _).followed fun _ _ => .pure rfl

/-- The filter of a compiled query is the converted one, and the notices about it are all there. -/
theorem filter_of_compile {configuration : Configuration} {query : Query}
    {conditions : List Condition} {compiled : Scroll}
    (ran : compile configuration query conditions = .ok compiled) :
    ∃ after, filterOf configuration query conditions .empty = .ok (compiled.query, after) ∧
      after.notices <+: compiled.notices := by
  -- The filter is converted first, and each later part only adds notices.
  replace ran := (run_of_compile ran).1
  rw [convertQuery_eq] at ran
  obtain ⟨filter, after, others, converted, same, listed, -⟩ := Compiled.of_run
    (fun filter result _ => result = filter) ran (steady_finish configuration query)
  rw [same, listed]
  exact ⟨after, converted, List.prefix_append _ _⟩

end ContentQuery.Qdrant
