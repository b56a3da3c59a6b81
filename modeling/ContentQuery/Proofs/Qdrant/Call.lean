import ContentQuery.Compiler
import ContentQuery.Proofs.Qdrant.Scroll

/-! The call that scrolls: which of its arguments a query can choose by what it passes through. -/

namespace ContentQuery.Qdrant

open scoped List

/-- The arguments that a call starts with. -/
def callStart (scroll : Scroll) (collection : Value) : OrderedMap Value CallArgument :=
  ⟨(if collection.isNull then [] else [(.text "collection_name", .option (.value collection))])
    ++ [(.text "scroll_filter", .filter scroll.query)]⟩

/-- The options of a scroll that are arguments of the call, which is all but the depth. -/
def callOptions (scroll : Scroll) : OrderedMap Value CallArgument :=
  ⟨(scroll.parameters.entries.filter fun entry => !(entry.1 == .text "resolve_depth")).map
    fun (key, argument) => (key, .option argument)⟩

/-- A call starts with the compiled filter. -/
theorem get?_callStart_filter (scroll : Scroll) (collection : Value) :
    (callStart scroll collection).get? (.text "scroll_filter") = some (.filter scroll.query) := by
  unfold callStart
  split <;> rfl

/-- A call starts with the name of the collection where one is given. -/
theorem get?_callStart_collection (scroll : Scroll) {collection : Value}
    (there : collection.isNull = false) :
    (callStart scroll collection).get? (.text "collection_name") =
      some (.option (.value collection)) := by
  unfold callStart
  rw [there]
  rfl

/-- Options are assigned after the arguments that the call starts with. -/
theorem callArguments_eq (scroll : Scroll) (collection : Value) :
    callArguments scroll collection = (callStart scroll collection).union (callOptions scroll) :=
  rfl

/-- Every option but the depth is found under its own name. -/
theorem get?_callOptions (scroll : Scroll) {name : String} (kept : name ≠ "resolve_depth") :
    (callOptions scroll).get? (.text name) =
      (scroll.parameters.get? (.text name)).map .option := by
  -- What is left out has another key, so that the search finds the same entry.
  have same : (fun entry : Value × Argument => decide
      ((!(entry.1 == Value.text "resolve_depth")) = true ∧ (entry.1 == Value.text name) = true)) =
        fun entry => entry.1 == Value.text name := by
    funext entry
    by_cases equal : (entry.1 == Value.text name) = true
    · have other : (entry.1 == Value.text "resolve_depth") = false := by
        rw [Value.eq_text_of_same equal]
        exact Bool.eq_false_iff.mpr fun depth =>
          kept (Value.text.inj (Value.eq_text_of_same depth))
      simp [equal, other]
    · simp [equal]
  rw [OrderedMap.get?, OrderedMap.get?, callOptions, List.find?_map, List.find?_filter,
    Option.map_map, Option.map_map]
  exact congrArg (fun found => (scroll.parameters.entries.find? found).map _) same

/-- An argument of the call is an option of the scroll, or else what the call starts with. -/
theorem get?_callArguments {scroll : Scroll} (collection : Value) {name : String}
    (kept : name ≠ "resolve_depth") (unique : scroll.parameters.Unique (.text name)) :
    (callArguments scroll collection).get? (.text name) =
      ((scroll.parameters.get? (.text name)).map .option).or
        ((callStart scroll collection).get? (.text name)) := by
  -- The options of the scroll are put over what the call starts with.
  have discrete := Value.isDiscrete_text name
  have unique' : (callOptions scroll).Unique (.text name) :=
    List.pairwise_map.mpr (unique.filter _)
  rw [callArguments_eq, OrderedMap.get?_union discrete,
    OrderedMap.get?_union_empty discrete unique', get?_callOptions scroll kept]

/--
What a query passes through does not change what is compiled from it, and comes behind the options
that are compiled.
-/
theorem bare_of_compile {configuration : Configuration} {query : Query}
    {conditions : List Condition} {compiled : Scroll}
    (ran : compile configuration query conditions = .ok compiled) :
    ∃ bare, compile configuration { query with params := .empty } conditions = .ok bare ∧
      compiled.query = bare.query ∧ bare.parameters.keys <+ optionNames.map Value.text ∧
        compiled.parameters =
          passed (fun _ => false) .value query.params.entries bare.parameters := by
  obtain ⟨ran, writable⟩ := run_of_compile ran
  rw [convertQuery_eq] at ran
  obtain ⟨after, gave, listed, passes⟩ := Compiled.ok_of_run ran
  obtain ⟨filter, between, filtered, ended⟩ := Compile.ok_of_bind gave
  obtain ⟨own, reached, chosen, ended⟩ := Compile.ok_of_bind ended
  obtain ⟨parameters, _, passing, ended⟩ := Compile.ok_of_bind ended
  obtain ⟨notices, rfl, -, rfl⟩ := (ensures_passThrough _ _ _ _ _).of_run passing
  have same := Except.ok.inj ended
  simp only [Prod.mk.injEq] at same
  obtain ⟨⟨sameFilter, sameParameters⟩, rfl⟩ := same
  -- Without anything to pass through, the run ends where the options have been chosen.
  have stopped : convertQuery configuration { query with params := .empty } conditions .empty =
      .ok ((compiled.query, own), reached) := by
    rw [convertQuery_eq, Compile.bind_apply, show filterOf configuration
      { query with params := .empty } conditions .empty = _ from filtered]
    show (optionsOf configuration query >>= _) between = _
    rw [Compile.bind_apply, chosen, sameFilter]
    rfl
  refine ⟨⟨compiled.query, own, reached.notices⟩,
    compile_of_run (Compiled.run_of_ok stopped ?_) writable, rfl, ?_, ?_⟩
  · -- There are no more notices than with what was passed through.
    rw [Bool.and_eq_false_iff] at passes ⊢
    refine passes.imp_right fun some_ => ?_
    have none_ : reached.notices ++ notices = [] := by simpa [Context.extend] using some_
    simp [(List.append_eq_nil_iff.mp none_).1]
  · exact ((steady_optionsOf configuration query).of_run chosen).1
  · exact sameParameters.symm

/-- The options that a call takes over from what is compiled. -/
def callOptionNames : List String :=
  ["with_payload", "order_by", "limit", "offset"]

/--
What a query passes through becomes an argument of the call. It changes neither the filter that is
compiled nor an option that is compiled from the rest of the query, but under the name of the filter
or of the collection it takes the place of what the call starts with.
-/
theorem passed_parameters_in_call {configuration : Configuration} {query : Query}
    {compiled : Scroll}
    (built : (Compiler.qdrant configuration).compileQuery query = .ok (.scroll compiled))
    (collection : Value) :
    ∃ bare, (Compiler.qdrant configuration).compileQuery { query with params := .empty } =
        .ok (.scroll bare) ∧ compiled.query = bare.query ∧
      (∀ name ∈ callOptionNames, ∀ argument,
        bare.parameters.get? (.text name) = some argument →
          (callArguments compiled collection).get? (.text name) = some (.option argument)) ∧
      (callArguments compiled collection).get? (.text "scroll_filter") =
        some (((query.params.get? (.text "scroll_filter")).map
          fun given => .option (.value given)).getD (.filter compiled.query)) ∧
      (collection.isNull = false →
        (callArguments compiled collection).get? (.text "collection_name") =
          some (.option (.value ((query.params.get? (.text "collection_name")).getD
            collection)))) := by
  obtain ⟨own, read, converted⟩ := Compiler.conditions_of_compileQuery built
  obtain ⟨bare, ran, sameFilter, names, given⟩ := bare_of_compile (scroll_of_output converted)
  have built' : (Compiler.qdrant configuration).compileQuery { query with params := .empty } =
      .ok (.scroll bare) := by
    have read' : (Compiler.qdrant configuration).conditionsOf { query with params := .empty } =
        .ok own := read
    rw [Compiler.compileQuery_eq, read']
    show (compile configuration { query with params := .empty } own).map Output.scroll = _
    rw [ran]
    rfl
  -- Each compiled option has a name of its own, and what is passed through takes none twice.
  have unique (name : String) : compiled.parameters.Unique (.text name) := by
    rw [given]
    exact unique_passed _ _ (Value.isDiscrete_text name) _
      (unique_of_named names (by decide) _)
  have looked (name : String) : compiled.parameters.get? (.text name) =
      (bare.parameters.get? (.text name)).or ((query.params.get? (.text name)).map .value) := by
    rw [given, get?_passed _ _ (Value.isDiscrete_text name)]
    rfl
  refine ⟨bare, built', sameFilter, fun name listed argument found => ?_, ?_, fun there => ?_⟩
  · have kept : name ≠ "resolve_depth" := by
      rintro rfl
      exact absurd listed (by decide)
    rw [get?_callArguments collection kept (unique name), looked name, found]
    rfl
  · rw [get?_callArguments collection (by decide) (unique _), looked,
      get?_eq_none_of_named names (by decide), Option.none_or, get?_callStart_filter]
    cases query.params.get? (.text "scroll_filter") <;> rfl
  · rw [get?_callArguments collection (by decide) (unique _), looked,
      get?_eq_none_of_named names (by decide), Option.none_or, get?_callStart_collection _ there]
    cases query.params.get? (.text "collection_name") <;> rfl

/-- A query for five posts that passes the names of the filter and of the limit through. -/
def passingQuery : Query :=
  { Query.everything with
    types := .one "post"
    limit := some 5
    params := ⟨[(.text "scroll_filter", .null), (.text "limit", .int 99)]⟩ }

/-- The configuration of a compiler that was given no options. -/
def standardConfiguration : Configuration where
  settings := Settings.standard
  payloadPrefix := .null
  draftField := .text "_draft"

/-- What is passed through takes the place of the filter, and not that of the limit. -/
theorem passed_parameters_in_call_limited :
    ∃ compiled bare, (Compiler.qdrant standardConfiguration).compileQuery passingQuery =
        .ok (.scroll compiled) ∧
      (Compiler.qdrant standardConfiguration).compileQuery { passingQuery with params := .empty } =
        .ok (.scroll bare) ∧ compiled.query = bare.query ∧
      (callArguments compiled (.text "documents")).get? (.text "limit") =
        some (.option (.value (.int 5))) ∧
      (callArguments compiled (.text "documents")).get? (.text "scroll_filter") =
        some (.option (.value .null)) ∧
      (callArguments compiled (.text "documents")).get? (.text "collection_name") =
        some (.option (.value (.text "documents"))) := by
  obtain ⟨compiled, built⟩ : ∃ compiled,
      (Compiler.qdrant standardConfiguration).compileQuery passingQuery =
        .ok (.scroll compiled) := ⟨_, rfl⟩
  obtain ⟨bare, built', same, options, filter, collection⟩ :=
    passed_parameters_in_call built (.text "documents")
  -- The limit of the query without parameters is its own one.
  have limited : bare.parameters.get? (.text "limit") = some (.value (.int 5)) := by
    obtain rfl := Output.scroll.inj (Except.ok.inj built')
    rfl
  exact ⟨compiled, bare, built, built', same, options "limit" (by decide) _ limited, filter,
    collection rfl⟩

/-- A query that passes the name of the filter through scrolls without the compiled filter. -/
theorem passed_parameter_replaces_filter :
    ∃ compiled clause, (Compiler.qdrant standardConfiguration).compileQuery passingQuery =
        .ok (.scroll compiled) ∧ compiled.query = some clause ∧
      (callArguments compiled (.text "documents")).get? (.text "scroll_filter") ≠
        some (.filter compiled.query) :=
  ⟨_, _, rfl, rfl, nofun⟩

end ContentQuery.Qdrant
