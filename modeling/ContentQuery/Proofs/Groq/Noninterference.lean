import ContentQuery.Proofs.Alike.Projection
import ContentQuery.Proofs.Groq.Alike
import ContentQuery.Proofs.Groq.Statement

/-! The text of a statement does not depend on the literals of its query. -/

namespace ContentQuery.Groq

open Compile (Agree)

section Projection

/-- Arguments are all converted where each of them has a form. -/
theorem forms_isSome (arguments : List Value) :
    (arguments.mapM Value.toJson).toOption.isSome = arguments.all isFormable := by
  -- By induction on the arguments, of which each has to have a form.
  induction arguments with
  | nil => rfl
  | cons argument rest ih =>
    rw [List.mapM_cons, List.all_cons, ← ih, isFormable]
    cases argument.toJson with
    | error fault => rfl
    | ok json => cases rest.mapM Value.toJson <;> rfl

/-- Slots that are the same, or two faults of which both are about forms or neither is. -/
def SlotsAlike : Except FormatFault (List Nat) → Except FormatFault (List Nat) → Prop
  | .ok slots, .ok slots' => slots = slots'
  | .error fault, .error fault' => fault.isUnwritable = fault'.isUnwritable
  | _, _ => False

/-- Arguments that are alike are bound to the same slots, or both to none. -/
theorem agree_bindArguments {arguments arguments' : List Value}
    (alike : ArgumentsAlike arguments arguments') (slot : Nat) :
    Convert.Agree SlotsAlike (bindArguments arguments).run (bindArguments arguments').run slot := by
  obtain ⟨counted, formable, written⟩ := alike
  -- Both lists have forms or neither has, which leaves two of the four cases.
  rw [← forms_isSome, ← forms_isSome] at formable
  refine .of_gives (gives_bindArguments arguments slot) (gives_bindArguments arguments' slot) ?_ ?_
  all_goals
    cases made : arguments.mapM Value.toJson <;> cases made' : arguments'.mapM Value.toJson <;>
      rw [made, made'] at formable
  · unfold canFormAll at written
    rw [made, made'] at written
    exact Bool.not_inj written
  · exact nomatch formable
  · exact nomatch formable
  · exact congrArg (List.range' slot ·) counted
  · rfl
  · exact nomatch formable
  · exact nomatch formable
  · exact (length_of_mapM made).trans (counted.trans (length_of_mapM made').symm)

/-- Computed attributes with arguments that are alike are converted to the same. -/
theorem agree_convertComputed (name function : Value) {arguments arguments' : List Value}
    (alike : ArgumentsAlike arguments arguments') :
    Agree Eq (convertComputed name function arguments)
      (convertComputed name function arguments') := by
  unfold convertComputed
  split
  · split
    · refine .bind (.lift (agree_bindArguments alike)) fun result result' same => ?_
      cases result <;> cases result'
      -- Two faults are dropped with notices of their own, or both of them end the compilation.
      · dsimp only
        rw [show FormatFault.isUnwritable _ = FormatFault.isUnwritable _ from same]
        exact .bind (.refl (fun _ => rfl) .requireWritten) fun _ _ _ =>
          .bind .degrade fun _ _ _ => .pure rfl
      · exact absurd same id
      · exact absurd same id
      · obtain rfl := same
        exact .pure rfl
    · exact .refl (fun _ => rfl) (blind_dropAttribute _ _ _)
  · exact .refuse

variable (limit : Nat)

mutual

/-- Projections that are alike are converted to the same. -/
theorem agree_convertField : {item item' : Projection} → item.Alike likeness item' →
    (depth : Nat) → Agree Eq (convertField limit depth item) (convertField limit depth item')
  -- Each kind of item writes its name and what is below it; only a computed one binds anything, and
  -- that in the same number.
  | _, _, .excluded _, _ => .refl (fun _ => rfl) (blind_dropAttribute _ _ _)
  | _, _, .alias name path, _ => .refl (fun _ => rfl) (blind_convertAlias name path)
  | _, _, .computed given, _ => agree_convertComputed _ _ given
  | _, _, .included name, _ =>
    .refl (fun _ => rfl) (.bind (blind_nameOf? name) fun _ => .pure)
  | .nested name _, .nested _ _, .nested inside, depth => by
    have fields := agree_convertFields inside depth
    unfold convertField
    refine .bind (.refl (fun _ => rfl) (blind_nameOf? name)) ?_
    rintro known _ rfl
    split
    · exact .pure rfl
    · refine .bind fields ?_
      rintro attributes _ rfl
      exact .refl (fun _ => rfl) (by split <;> exact .pure)
  | _, _, .resolved name, depth => by
    unfold convertField
    refine .refl (fun _ => rfl) (.bind (blind_nameOf? name) fun known => ?_)
    split
    · exact .pure
    · split
      · exact blind_leaveUnresolved _ _
      · exact .pure
  | .expanded name _, .expanded _ _, .expanded inside, depth => by
    have fields := agree_convertFields inside (depth + 1)
    unfold convertField
    refine .bind (.refl (fun _ => rfl) (blind_nameOf? name)) ?_
    rintro known _ rfl
    split
    · exact .pure rfl
    · split
      · exact .refl (fun _ => rfl) (blind_leaveUnresolved _ _)
      · refine .bind fields ?_
        rintro attributes _ rfl
        exact .pure rfl
  | _, _, .stray _, _ => .refuse
termination_by structural _ _ alike => alike

/-- Lists of projections that are alike are converted to the same. -/
theorem agree_convertFields : {items items' : List Projection} →
    Projection.AllAlike likeness items items' → (depth : Nat) →
      Agree Eq (convertFields limit depth items) (convertFields limit depth items')
  -- By induction on the items, whose names are the same.
  | _, _, .nil, _ => .pure rfl
  | item :: _, item' :: _, .cons first others, depth => by
    have here := agree_convertField first depth
    have later := agree_convertFields others depth
    unfold convertFields
    rw [first.name_eq]
    refine .bind (.refl (fun _ => rfl) (blind_requireKey item'.name)) fun _ _ _ => .bind here ?_
    rintro converted _ rfl
    refine .bind later ?_
    rintro attributes _ rfl
    exact .pure rfl
termination_by structural _ _ alike => alike

end

end Projection

/-- A query with another filter and another projection. -/
def rewritten (query : Query) (filter : List Value) (projection : Value) : Query :=
  { query with filter, projection }

/-- Queries whose projections are alike have the same attributes. -/
theorem agree_projectionOf (settings : Settings) (query : Query) (filter : List Value)
    {projection : Value} (alike : Projection.FieldsAlike likeness query.projection projection) :
    Agree Eq (projectionOf settings query)
      (projectionOf settings (rewritten query filter projection)) := by
  have top {fields fields' : List Projection}
      (inside : Projection.AllAlike likeness fields fields') :
      Agree Eq (convertTop settings.maxResolveDepth fields)
        (convertTop settings.maxResolveDepth fields') := by
    refine .bind (agree_convertFields _ inside 0) ?_
    rintro attributes _ rfl
    split
    · exact .pure rfl
    · exact .refuse
  -- Whether the depth is noted or not, the fields are converted in the same way.
  have ended {fields fields' : List Projection}
      (inside : Projection.AllAlike likeness fields fields') :
      Agree Eq (if query.projection.isNull then pure none
        else return some (← convertTop settings.maxResolveDepth fields))
        (if projection.isNull then pure none
        else return some (← convertTop settings.maxResolveDepth fields')) := by
    rw [alike.isNull_eq]
    split
    · exact .pure rfl
    · refine .bind (top inside) ?_
      rintro attributes _ rfl
      exact .pure rfl
  refine .bind (Projection.agree_read _ alike 1 _) fun fields fields' inside =>
    .bind (.refl (fun _ => rfl) (settings.blind_resolveDepth query)) ?_
  rintro depth _ rfl
  dsimp only
  rw [inside.any_isExpansion_eq]
  split
  · exact .bind .degrade fun _ _ _ => ended inside
  · exact ended inside

section Parameters

/-- Whether a key is there shows in the keys. -/
theorem contains_eq_of_keys {parameters parameters' : OrderedMap Value Value}
    (same : parameters.keys = parameters'.keys) (key : Value) :
    parameters.contains key = parameters'.contains key := by
  -- Whether a key is there can be told from the keys.
  have listed (map : OrderedMap Value Value) :
      map.contains key = map.keys.any (· == key) := by
    simp [OrderedMap.contains, OrderedMap.keys, List.any_map, Function.comp_def]
  rw [listed, listed, same]

/-- Parameters with the same keys still have the same keys when a new key is assigned. -/
theorem keys_insert_eq {parameters parameters' : OrderedMap Value Value}
    (same : parameters.keys = parameters'.keys) {key : Value}
    (absent : parameters.contains key = false) (value value' : Value) :
    (parameters.insert key value).keys = (parameters'.insert key value').keys := by
  rw [OrderedMap.insert_of_not_contains absent,
    OrderedMap.insert_of_not_contains (contains_eq_of_keys same key ▸ absent)]
  simpa [OrderedMap.keys] using same

/-- Equally many literals are bound under the same names. -/
theorem keys_named_eq {context context' : Context} (level : Compile.Level context context') :
    (⟨context.named⟩ : OrderedMap Value Value).keys = OrderedMap.keys ⟨context'.named⟩ := by
  rw [keys_named, keys_named, level]

/-- Parameters that are passed through behind the same keys have the same keys. -/
theorem agree_passThrough (what : String) (entries : List (Value × Value))
    {parameters parameters' : OrderedMap Value Value} (same : parameters.keys = parameters'.keys) :
    Agree (fun parameters parameters' => parameters.keys = parameters'.keys)
      (passThrough (fun _ => false) what id entries parameters)
      (passThrough (fun _ => false) what id entries parameters') := by
  -- Keys are compared, values are not: an entry is passed on both sides or on neither.
  induction entries generalizing parameters parameters' with
  | nil => exact .pure same
  | cons entry rest ih =>
    unfold passThrough
    rw [contains_eq_of_keys same]
    split
    · exact .bind .degrade fun _ _ _ => ih same
    · rename_i free
      have absent : parameters.contains entry.1 = false := by
        rw [contains_eq_of_keys same]
        simpa using free
      exact ih (keys_insert_eq same absent _ _)

/-- A locale is added behind the same keys. -/
theorem keys_addLocale_eq (name : String) (locale : Value)
    {parameters parameters' : OrderedMap Value Value} (same : parameters.keys = parameters'.keys) :
    (addLocale name locale parameters).keys = (addLocale name locale parameters').keys := by
  -- A locale is added under a name that is free in both.
  unfold addLocale
  rw [contains_eq_of_keys same]
  split
  · rename_i free
    have absent : parameters.contains (.text name) = false := by
      rw [contains_eq_of_keys same]
      simpa using (Bool.and_eq_true_iff.mp free).2
    exact keys_insert_eq same absent _ _
  · exact same

/-- Parameters have the same keys after equally many literals. -/
theorem agree_convertParameters (settings : Settings) (query : Query) (filter : List Value)
    (projection : Value) : Agree (fun parameters parameters' => parameters.keys = parameters'.keys)
      (convertParameters settings query)
      (convertParameters settings (rewritten query filter projection)) := by
  -- The slots are named by their number, so that the keys are the same on both sides.
  have current : Agree Compile.Level get get := fun _ _ level => .gave ⟨level, level⟩
  refine .bind current fun context context' level => ?_
  refine .bind (agree_passThrough _ _ (keys_named_eq level)) fun parameters parameters' same => ?_
  exact .pure (keys_addLocale_eq _ _ (keys_addLocale_eq _ _ same))

end Parameters

/-- Queries that are alike are converted to one statement and to parameters of the same names. -/
theorem agree_convertQuery (settings : Settings) (query : Query) {own own' : List Condition}
    (conditions : Condition.AllAlike likeness own own') (filter : List Value) {projection : Value}
    (fields : Projection.FieldsAlike likeness query.projection projection) :
    Agree (fun result result' => result.1 = result'.1 ∧ result.2.keys = result'.2.keys)
      (convertQuery settings query own)
      (convertQuery settings (rewritten query filter projection) own') := by
  -- Step by step: only the filter and the projection hold literals, and what they give agrees in
  -- everything but the bindings.
  refine .bind (.lift (agree_filterParts settings query conditions)) ?_
  rintro parts _ rfl
  refine .bind (.refl (fun _ => rfl) (blind_convertOrder query.order)) ?_
  rintro order _ rfl
  refine .bind (.refl (fun _ => rfl) (blind_convertSlice settings query)) ?_
  rintro slice _ rfl
  refine .bind (agree_projectionOf settings query filter fields) ?_
  rintro attributes _ rfl
  refine .bind (agree_convertParameters settings query filter projection) ?_
  exact fun parameters parameters' same => .pure ⟨rfl, same⟩

/--
The text of a statement does not depend on literals: a query with other literals in its filter and
in the arguments of computed fields, which are alike, has the same text and the same parameters.
-/
theorem text_independent_of_literals {settings : Settings} {query : Query} {filter : List Value}
    {projection : Value} {compiled : Compiled Statement Value}
    (conditions : Node.ItemsAlike likeness query.filter filter)
    (fields : Projection.FieldsAlike likeness query.projection projection)
    (lenient : settings.strict.isTruthy = false)
    (built : (Compiler.groq settings).compileQuery query = .ok (.statement compiled)) :
    ∃ compiled', (Compiler.groq settings).compileQuery (rewritten query filter projection) =
        .ok (.statement compiled') ∧
      compiled'.query.text = compiled.query.text ∧
        compiled'.parameters.keys = compiled.parameters.keys := by
  obtain ⟨own, read, converted⟩ := Compiler.conditions_of_compileQuery built
  -- The other filter is read as conditions that are alike, and these are converted to the same.
  have readings : ResultsAgree (Condition.AllAlike likeness)
      ((Compiler.groq settings).conditionsOf query)
      ((Compiler.groq settings).conditionsOf (rewritten query filter projection)) :=
    Compiler.agree_conditionsOf _ conditions
  obtain ⟨own', read', alike⟩ := readings.of_ok read
  obtain ⟨forms, ran⟩ := Groq.run_of_compile (statement_of_output converted)
  obtain ⟨after, gave, -, -⟩ := Compiled.ok_of_run ran
  obtain ⟨⟨⟨statement, parameters⟩, after'⟩, gave', ⟨same, keys⟩, -⟩ :=
    (agree_convertQuery settings query alike filter fields .empty .empty rfl).of_ok gave
  -- The notices may differ, for which a lenient compiler refuses nothing.
  refine ⟨⟨statement, parameters, after'.notices⟩, ?_, congrArg Statement.text same.symm, keys.symm⟩
  have forms' : canConvertAll (own' ++ settings.globalFilter.conditionList) = true := by
    rwa [← canConvertAll_eq (alike.append (.refl _))]
  have ran' : compile settings (rewritten query filter projection) own' =
      .ok ⟨statement, parameters, after'.notices⟩ := by
    rw [Groq.compile_of_run forms']
    exact Compiled.run_of_ok gave' (by rw [lenient, Bool.false_and])
  rw [Compiler.compileQuery_eq, read']
  exact congrArg (Except.map Output.statement) ran'

/-- A filter with a comparison and, still to be read, a choice; the literals are given. -/
def choiceFilter (title tags : Value) : List Value :=
  [.leaf (.text "title") (.text "==") title,
    .map [(.text "or", .list [
      .map [(.text "field", .text "tags"), (.text "operator", .text "containsAny"),
        (.text "value", tags)],
      .node .null .null .null .null .null (.leaf (.text "level") (.text "in") (.int 3))])]]

/-- A projection with a computed field, whose arguments are given. -/
def computedProjection (arguments : Value) : Value :=
  .map [(.text "title", .bool true),
    (.text "stats", .map [
      (.text "total", .map [(.text "fn", .text "round"), (.text "args", arguments)])])]

/-- A query with plain literals. -/
def plainQuery : Query :=
  { Query.everything with
    filter := choiceFilter (.text "a") (.list [.text "x", .text "y"])
    projection := computedProjection (.list [.int 1, .text "b"]) }

/-- Literals that look like parts of a statement do not become parts of it. -/
theorem text_independent_of_literals_injected :
    ∃ compiled compiled',
      (Compiler.groq Settings.standard).compileQuery plainQuery = .ok (.statement compiled) ∧
        (Compiler.groq Settings.standard).compileQuery (rewritten plainQuery
          (choiceFilter (.text "\"] | *[") (.tuple [.null, .text "$p0 || true"]))
          (computedProjection (.tuple [.text ")\x7d", .map []]))) = .ok (.statement compiled') ∧
          compiled'.query.text = compiled.query.text ∧
            compiled'.parameters.keys = compiled.parameters.keys := by
  -- Quotes, brackets and slots within the literals are bound like any other text.
  have conditions : Node.ItemsAlike likeness plainQuery.filter
      (choiceFilter (.text "\"] | *[") (.tuple [.null, .text "$p0 || true"])) := by
    have titles : LiteralsAlike (.known .equal) (.text "a") (.text "\"] | *[") :=
      ⟨rfl, rfl, fun _ => rfl, fun _ => rfl, fun _ => rfl⟩
    have tags : LiteralsAlike (.known .containsAny) (.list [.text "x", .text "y"])
        (.tuple [.null, .text "$p0 || true"]) :=
      ⟨rfl, rfl, fun _ => rfl, fun _ => rfl, fun _ => rfl⟩
    refine .cons (.node titles (.same _) (.same _) (.same _)) (.cons (.map ?_) .nil)
    refine .cons (.children (Or.inr rfl) (.list (.cons (.map ?_) (.cons (.same _) .nil)))) .nil
    exact .cons (.same _ _) (.cons (.same _ _) (.cons (.literal rfl tags) .nil))
  have fields : Projection.FieldsAlike likeness plainQuery.projection
      (computedProjection (.tuple [.text ")\x7d", .map []])) := by
    have arguments : ArgumentsAlike [.int 1, .text "b"] [.text ")\x7d", .map []] :=
      ⟨rfl, rfl, rfl⟩
    refine .map (.cons (.same _) (.cons (.nested rfl rfl ?_) .nil))
    exact .cons (.computed rfl rfl arguments) .nil
  obtain ⟨compiled, built⟩ : ∃ compiled, (Compiler.groq Settings.standard).compileQuery plainQuery =
      .ok (.statement compiled) := ⟨_, rfl⟩
  obtain ⟨compiled', built', same, keys⟩ :=
    text_independent_of_literals conditions fields rfl built
  exact ⟨compiled, compiled', built, built', same, keys⟩

/-- A literal in which a number lies a number of maps deep. -/
def buried : Nat → Value
  | 0 => .int 1
  | depth + 1 => .map [(.text "k", buried depth)]

/-- A query for what is among literals. -/
def membershipQuery (value : Value) : Query :=
  { Query.everything with filter := [.leaf (.text "tags") (.text "in") value] }

/-- Two literals with a form may have different texts, where a list around one is too deep. -/
theorem text_depends_on_depth_of_membership :
    isFormable (buried 32) = true ∧ isFormable (buried 0) = true ∧
      ∃ compiled compiled',
        (Compiler.groq Settings.standard).compileQuery (membershipQuery (buried 32)) =
            .ok (.statement compiled) ∧
          (Compiler.groq Settings.standard).compileQuery (membershipQuery (buried 0)) =
            .ok (.statement compiled') ∧
            compiled.query.text = "*" ∧ compiled'.query.text = "*[tags in $p0]" :=
  ⟨rfl, rfl, _, _, rfl, rfl, rfl, rfl⟩

end ContentQuery.Groq
