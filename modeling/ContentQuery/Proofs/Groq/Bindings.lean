import ContentQuery.Proofs.Groq.Arguments
import ContentQuery.Proofs.Groq.Preservation

/-! Parameters of a statement: what its text refers to is bound to the literals it was made of. -/

namespace ContentQuery.Groq

open Compile (Settles)

section Statement

/-- A statement is sorted by paths. -/
theorem ensures_convertOrder (entries : List Value) : (convertOrder entries).Ensures fun order _ =>
    ∀ clause ∈ order, pathGrammar.isPath clause.1 = true := by
  induction entries with
  | nil => exact .pure nofun
  | cons entry rest ih =>
    -- An entry gives one clause or none, and the rest follows in both cases.
    have joined (clause : List (String × Direction))
        (paths : ∀ found ∈ clause, pathGrammar.isPath found.1 = true) :
        Compile.Ensures (do return clause ++ (← convertOrder rest)) fun order _ =>
          ∀ clause ∈ order, pathGrammar.isPath clause.1 = true :=
      .bind ih fun later _ others => .pure (List.forall_mem_append.mpr ⟨paths, others⟩)
    have dropped (field : Value) : (convertOrder.drop field).Ensures fun clause _ => clause = [] :=
      .written (.noted fun _ => rfl)
    have ignored (field : Value) :
        Compile.Ensures (convertOrder.drop field >>= fun clause => do
          return clause ++ (← convertOrder rest)) fun order _ =>
            ∀ clause ∈ order, pathGrammar.isPath clause.1 = true :=
      .bind (dropped field) fun clause _ none_ => joined clause (by simp [none_])
    unfold convertOrder
    refine .bind Compile.Blind.ofExcept fun field _ _ => ?_
    dsimp only
    split
    · rename_i path
      split
      · rename_i valid
        refine .bind Compile.Blind.ofExcept fun direction _ _ => joined [(path, direction)] ?_
        simpa using valid
      · exact ignored _
    · exact ignored _

/-- The parts of a filter are its clauses and what the conditions are converted to. -/
def FilterCarries (settings : Settings) (query : Query) (own everywhere : List Condition)
    (bindings : List Value) (filter : List Expression) : Prop :=
  ∃ parts parts', CarryAll bindings own parts ∧ CarryAll bindings everywhere parts' ∧
    filter = typeClause query ++ draftClause settings query ++ parts ++ parts'

/-- A projection delivers what its fields do, and none is delivered without one. -/
def ProjectionDelivers (settings : Settings) (query : Query) (bindings : List Value)
    (projection : Option (List Attribute)) : Prop :=
  if query.projection.isNull then projection = none
  else ∃ fields notices attributes,
    (Projection.readTop settings.depthLimit query.projection).Gives fields notices ∧
      DeliverAll bindings fields attributes ∧ projection = some attributes

/-- The filter of a query carries the literals of all conditions. -/
theorem settles_filterParts {settings : Settings} {nodes : List Value}
    {everywhere : List Condition}
    (structured : settings.globalFilter = .conditions nodes everywhere) (query : Query)
    (own : List Condition) :
    (filterParts settings query own).lift.Settles
      (FilterCarries settings query own everywhere) := by
  have clause : globalClause settings = convertAll everywhere := by
    unfold globalClause
    rw [structured]
  refine .lift fun slot => .bind (ensures_carryAll own slot) fun parts literals _ carry => ?_
  rw [clause]
  refine .bind (ensures_carryAll everywhere _) fun parts' literals' _ carry' => .pure ?_
  intro bindings bound
  rw [List.append_nil] at bound
  -- The literals of global conditions are bound behind those of the query.
  obtain ⟨here, there⟩ := boundFrom_append.mp bound
  exact ⟨parts, parts', carry bindings here, carry' bindings there, rfl⟩

/-- The projection of a query delivers its fields. -/
theorem settles_projectionOf (settings : Settings) (query : Query) :
    (projectionOf settings query).Settles (ProjectionDelivers settings query) := by
  have read : (Projection.readTop settings.depthLimit query.projection).Settles fun _ fields =>
      ∃ notices, (Projection.readTop settings.depthLimit query.projection).Gives fields notices :=
    Compile.Ensures.settles <| (Projection.blind_read _ _ _ _).gives.mono
      fun fields notices given _ => ⟨notices, given.1⟩
  have granted : (settings.resolveDepth query).Settles fun _ _ => True :=
    Compile.Ensures.settles ((settings.blind_resolveDepth query).mono fun _ _ _ _ => trivial)
  have top (fields : List Projection) : (convertTop settings.maxResolveDepth fields).Settles
      fun bindings attributes => DeliverAll bindings fields attributes := by
    refine .bind (settles_convertFields _ fields 0) fun attributes => ?_
    split
    · exact .pure fun _ delivers => delivers
    · exact .refuse
  -- Whether the depth is noted or not, the fields are converted in the same way.
  have ended (fields : List Projection) :
      Settles (if query.projection.isNull then pure none
        else return some (← convertTop settings.maxResolveDepth fields)) fun bindings projection =>
          (∃ notices,
            (Projection.readTop settings.depthLimit query.projection).Gives fields notices) →
              ProjectionDelivers settings query bindings projection := by
    unfold ProjectionDelivers
    split
    · exact .pure fun _ _ => rfl
    · refine .bind (top fields) fun attributes => .pure ?_
      exact fun bindings delivers ⟨notices, given⟩ =>
        ⟨fields, notices, attributes, given, delivers, rfl⟩
  unfold projectionOf
  refine .bind read fun fields => .bind granted fun depth => ?_
  dsimp only
  split
  · have noted : (Compile.remark .resolveOutOfBand
        ("GROQ resolves references through expansion descriptors in the projection; " ++
          "resolve_references alone has no effect")).Settles fun _ _ => True :=
      Compile.Ensures.settles (.degrade fun _ => trivial)
    exact (Settles.bind noted fun _ => (ended fields).mono fun _ _ delivers _ => delivers).mono
      fun _ _ delivers _ => delivers
  · exact (ended fields).mono fun _ _ delivers _ => delivers

/-- The statement of a query, before its parameters. -/
def statementOf (settings : Settings) (query : Query) (conditions : List Condition) :
    Compile Statement := do
  let filter ← (filterParts settings query conditions).lift
  let order ← convertOrder query.order
  let slice ← convertSlice settings query
  let projection ← projectionOf settings query
  return ⟨filter, order, slice, projection⟩

/-- The parameters of a query are converted last. -/
theorem convertQuery_parameters (settings : Settings) (query : Query)
    (conditions : List Condition) : convertQuery settings query conditions = do
      let statement ← statementOf settings query conditions
      let parameters ← convertParameters settings query
      return (statement, parameters) := by
  simp [convertQuery, statementOf]

/-- What the parts of a statement are made of, with the literals that are bound in the end. -/
structure Statement.IsMadeOf (settings : Settings) (query : Query) (own everywhere : List Condition)
    (bindings : List Value) (statement : Statement) : Prop where
  filter : FilterCarries settings query own everywhere bindings statement.filter
  order : ∀ clause ∈ statement.order, pathGrammar.isPath clause.1 = true
  projection : ProjectionDelivers settings query bindings statement.projection

/-- The statement of a query is made of its conditions and fields. -/
theorem settles_statementOf {settings : Settings} {nodes : List Value}
    {everywhere : List Condition}
    (structured : settings.globalFilter = .conditions nodes everywhere) (query : Query)
    (own : List Condition) :
    (statementOf settings query own).Settles
      fun bindings statement => statement.IsMadeOf settings query own everywhere bindings := by
  -- Filter, order, slice and projection come one after another; what the first has bound is not
  -- touched by the others.
  have sorted : (convertOrder query.order).Settles fun _ order =>
      ∀ clause ∈ order, pathGrammar.isPath clause.1 = true :=
    Compile.Ensures.settles ((ensures_convertOrder query.order).mono fun _ _ paths _ => paths)
  have cut : (convertSlice settings query).Settles fun _ _ => True :=
    Compile.Ensures.settles ((blind_convertSlice settings query).mono fun _ _ _ _ => trivial)
  refine .bind (settles_filterParts structured query own) fun filter => ?_
  refine .bind sorted fun order => .bind cut fun slice => ?_
  refine .bind (settles_projectionOf settings query) fun projection => .pure ?_
  exact fun bindings delivers _ paths carries => ⟨carries, paths, delivers⟩

end Statement

section Parameters

/-- A locale is added behind the other parameters, or not at all. -/
theorem entries_addLocale (name : String) (locale : Value)
    (parameters : OrderedMap Value Value) :
    ∃ added, (addLocale name locale parameters).entries = parameters.entries ++ added := by
  -- A locale is put at the end, or not at all.
  unfold addLocale
  split
  · rename_i free
    have absent : parameters.contains (.text name) = false := by
      simpa using (Bool.and_eq_true_iff.mp free).2
    rw [OrderedMap.insert_of_not_contains absent]
    exact ⟨_, rfl⟩
  · exact ⟨[], (List.append_nil _).symm⟩

/-- The parameters of a query start with its placeholders. -/
theorem named_of_convertParameters {settings : Settings} {query : Query}
    {context after : Context} {parameters : OrderedMap Value Value}
    (ran : convertParameters settings query context = .ok (parameters, after)) :
    after.bindings = context.bindings ∧ context.named <+: parameters.entries := by
  unfold convertParameters at ran
  obtain ⟨_, _, got, ran⟩ := Compile.ok_of_bind ran
  cases got
  obtain ⟨through, between, given, ran⟩ := Compile.ok_of_bind ran
  obtain ⟨notices, rfl, -, rfl⟩ := (ensures_passThrough _ _ _ _ _).of_run given
  cases ran
  -- What is passed through and the locales only come behind them.
  obtain ⟨passedOn, first, -⟩ := entries_passed (fun _ => false) id query.params.entries
    ⟨context.named⟩
  obtain ⟨located, second⟩ := entries_addLocale "locale"
    (query.locale.orElse settings.defaultLocale)
    (passed (fun _ => false) id query.params.entries ⟨context.named⟩)
  obtain ⟨fallen, third⟩ := entries_addLocale "fallbackLocale"
    (query.fallbackLocale.orElse (settings.fallbackLocales.headD .null))
    (addLocale "locale" (query.locale.orElse settings.defaultLocale)
      (passed (fun _ => false) id query.params.entries ⟨context.named⟩))
  refine ⟨by simp [Context.extend], passedOn ++ (located ++ fallen), ?_⟩
  rw [third, second, first]
  simp only [List.append_assoc]

/-- Placeholders of different slots have different names. -/
theorem slotName_injective : Function.Injective Context.slotName := by
  intro slot slot' same
  have texts : slot.repr = slot'.repr := (String.append_right_inj "p").mp same
  -- A number can be read back from its digits.
  have digits : Nat.toDigits 10 slot = Nat.toDigits 10 slot' := String.ofList_injective texts
  rw [← Nat.ofDigitChars_ten_toDigits (n := slot), digits, Nat.ofDigitChars_ten_toDigits]

/-- A parameter that starts with the placeholders has the literal of each of them. -/
theorem get?_of_named {context : Context} {parameters : OrderedMap Value Value}
    (first : context.named <+: parameters.entries) {slot : Nat}
    (inside : slot < context.bindings.length) :
    parameters.get? (.text (Context.slotName slot)) = context.bindings[slot]? := by
  obtain ⟨added, same⟩ := first
  -- The slots are counted from any number on, so that the induction goes through.
  have located (literals : List Value) (start index : Nat) (there : index < literals.length) :
      (((literals.zipIdx start).map fun (bound : Value × Nat) =>
          (Value.text (Context.slotName bound.2), bound.1)) ++ added).find?
        (fun entry => entry.1 == Value.text (Context.slotName (start + index))) =
          some (Value.text (Context.slotName (start + index)), literals[index]) := by
    induction literals generalizing start index with
    | nil => exact absurd there (Nat.not_lt_zero _)
    | cons literal rest ih =>
      cases index with
      | zero => simp [(Value.isDiscrete_text _).left]
      | succ index =>
        have other : (Value.text (Context.slotName start) ==
            .text (Context.slotName (start + (index + 1)))) = false := by
          refine Bool.eq_false_iff.mpr fun equal => ?_
          have names := Value.text.inj (((Value.isDiscrete_text _).left _).mp equal)
          have slots := slotName_injective names
          omega
        have next := ih (start + 1) index (by simpa using there)
        rw [Nat.add_right_comm, Nat.add_assoc start] at next
        simpa [List.zipIdx_cons, other] using next
  have found := located context.bindings 0 slot inside
  rw [Nat.zero_add] at found
  rw [OrderedMap.get?, ← same, Context.named, found, List.getElem?_eq_getElem inside]
  rfl

/-- Parameters that start with the placeholders start with their names. -/
theorem keys_of_named {context : Context} {parameters : OrderedMap Value Value}
    (first : context.named <+: parameters.entries) :
    parameters.keys.take context.bindings.length =
      (namesOf (List.range context.bindings.length)).map .text := by
  -- The bindings come first, and they are called by their slots.
  obtain ⟨added, same⟩ := first
  have keys := keys_named context
  have counted : (⟨context.named⟩ : OrderedMap Value Value).keys.length =
      context.bindings.length := by
    rw [keys]
    simp
  have split_ : parameters.keys = OrderedMap.keys ⟨context.named⟩ ++ added.map Prod.fst := by
    rw [OrderedMap.keys, OrderedMap.keys, ← same, List.map_append]
  rw [split_, ← counted, List.take_left, counted, keys, namesOf, List.map_map,
    List.range_eq_range']
  rfl

end Parameters

/--
The parameters of a statement are bound to the literals of the conditions and fields it is made of.

What is passed through and the locales come behind the placeholders and replace none of them.
-/
structure BindsExactly (settings : Settings) (query : Query) (own everywhere : List Condition)
    (compiled : Compiled Statement Value) (bindings : List Value) : Prop where
  /-- The first parameters are the placeholders, in order. -/
  keys : compiled.parameters.keys.take bindings.length =
    (namesOf (List.range bindings.length)).map .text
  /-- In the end, every placeholder has the literal that was bound to it. -/
  values : ∀ slot < bindings.length,
    compiled.parameters.get? (.text (Context.slotName slot)) = bindings[slot]?
  /-- Outside its string literals, the text refers to the placeholders of the statement. -/
  references : references compiled.query.text = namesOf compiled.query.slots
  /-- A placeholder of the statement has been bound. -/
  slots : ∀ slot ∈ compiled.query.slots, slot < bindings.length
  /-- The statement is made of the conditions and fields, each with the literals bound for it. -/
  made : compiled.query.IsMadeOf settings query own everywhere bindings

/-- The parts of a statement name only slots that something is bound to. -/
theorem Statement.IsMadeOf.slots_lt {settings : Settings} {query : Query}
    {own everywhere : List Condition} {bindings : List Value} {statement : Statement}
    (made : statement.IsMadeOf settings query own everywhere bindings) :
    (∀ part ∈ statement.filter, ∀ slot ∈ part.slots, slot < bindings.length) ∧
      ∀ head ∈ statement.projection.getD [], head.IsBound bindings := by
  obtain ⟨⟨parts, parts', carry, carry', filter⟩, -, projection⟩ := made
  constructor
  · rw [filter]
    refine List.forall_mem_append.mpr ⟨List.forall_mem_append.mpr ⟨?_, carry.slots_lt⟩,
      carry'.slots_lt⟩
    -- The clauses about types and drafts name no slot.
    refine List.forall_mem_append.mpr ⟨fun part member => ?_, fun part member => ?_⟩
    · unfold typeClause at member
      split at member
      · exact nomatch member
      · obtain rfl := List.mem_singleton.mp member
        exact nofun
      · obtain rfl := List.mem_singleton.mp member
        exact nofun
    · unfold draftClause at member
      split at member
      · obtain rfl := List.mem_singleton.mp member
        exact nofun
      · exact nomatch member
  · unfold ProjectionDelivers at projection
    split at projection
    · rw [projection]
      exact nofun
    · obtain ⟨fields, notices, attributes, -, delivered, same⟩ := projection
      rw [same]
      exact delivered.isBound

/--
Placeholders are bound exactly, and nothing overwrites them: whatever a query passes through and
whatever locales it has, the first parameters are the placeholders in order, the text refers to no
others, and each of them has the form of the literal that it was written for.
-/
theorem placeholders_bound_exactly {settings : Settings} {query : Query}
    {compiled : Compiled Statement Value} {nodes : List Value} {everywhere : List Condition}
    (structured : settings.globalFilter = .conditions nodes everywhere)
    (built : (Compiler.groq settings).compileQuery query = .ok (.statement compiled)) :
    ∃ own bindings, (Compiler.groq settings).conditionsOf query = .ok own ∧
      convertQuery settings query own .empty =
        .ok ((compiled.query, compiled.parameters), ⟨bindings, compiled.notices⟩) ∧
      BindsExactly settings query own everywhere compiled bindings := by
  obtain ⟨own, read, converted⟩ := Compiler.conditions_of_compileQuery built
  have compiled_ := statement_of_output converted
  obtain ⟨after, gave, listed, -⟩ := Compiled.ok_of_run (run_of_compile compiled_).2
  refine ⟨own, after.bindings, read, listed ▸ gave, ?_⟩
  -- The statement is converted before its parameters, which bind nothing further.
  rw [convertQuery_parameters] at gave
  obtain ⟨statement, between, made, gave⟩ := Compile.ok_of_bind gave
  obtain ⟨parameters, last, given, ended⟩ := Compile.ok_of_bind gave
  cases ended
  obtain ⟨kept, first⟩ := named_of_convertParameters given
  obtain ⟨-, settled⟩ := settles_statementOf structured query own _ _ _ made
  have parts := settled between.bindings (List.prefix_refl _)
  obtain ⟨filtered, projected⟩ := parts.slots_lt
  have formed : compiled.query.WellFormed := by
    obtain ⟨after', filter, -⟩ := filter_of_compile compiled_
    obtain ⟨-, -, -, formed, -⟩ := (ensures_filterParts structured query own).of_run filter
    exact ⟨formed, parts.order, fun head member => (projected head member).1⟩
  rw [kept]
  refine ⟨keys_of_named first, fun slot inside => get?_of_named first inside,
    references_text formed, fun slot among => ?_, parts⟩
  rcases List.mem_append.mp among with here | there
  · obtain ⟨part, member, inside⟩ := List.mem_flatMap.mp here
    exact filtered part member slot inside
  · obtain ⟨head, member, inside⟩ := List.mem_flatMap.mp there
    exact (projected head member).2 slot inside

/-- A query for posts by an author that passes through names of placeholders. -/
def collidingQuery : Query :=
  { Query.everything with
    types := .one "post"
    filter := [.leaf (.text "author") (.text "references") (.text "z"),
      .node .null .null .null .null
        (.list [.leaf (.text "tags") (.text "containsAny") (.list [.text "x", .text "y"]),
          .leaf (.text "title") (.text "startsWith") (.text "$p9")]) .null,
      .leaf (.text "no path") (.text "==") (.int 1)]
    projection := .map [(.text "stats", .map [(.text "total",
      .map [(.text "fn", .text "round"), (.text "args", .list [.int 1, .text "b"])])])]
    locale := .text "de"
    params := ⟨[(.text "p0", .text "taken"), (.text "locale", .text "fr"),
      (.text "p9", .int 9)]⟩ }

/-- The placeholders of a query keep their literals, whatever is passed through under their name. -/
theorem placeholders_bound_exactly_colliding :
    ∃ compiled own bindings,
      (Compiler.groq tenantSettings).compileQuery collidingQuery = .ok (.statement compiled) ∧
        (Compiler.groq tenantSettings).conditionsOf collidingQuery = .ok own ∧
          BindsExactly tenantSettings collidingQuery own
            [.leaf (.text "tenant") (.known .equal) (.text "a")] compiled bindings ∧
            references compiled.query.text = ["p0", "p0", "p1", "p2", "p3", "p4", "p5", "p6"] ∧
              compiled.parameters.get? (.text "p0") = some (.text "z") := by
  -- The caller's own parameter of a slot's name is left out for the literal bound there.
  obtain ⟨compiled, built, slots, kept⟩ : ∃ compiled,
      (Compiler.groq tenantSettings).compileQuery collidingQuery = .ok (.statement compiled) ∧
        compiled.query.slots = [0, 0, 1, 2, 3, 4, 5, 6] ∧
          compiled.parameters.get? (.text "p0") = some (.text "z") := ⟨_, rfl, rfl, rfl⟩
  obtain ⟨own, bindings, read, -, bound⟩ := placeholders_bound_exactly rfl built
  refine ⟨compiled, own, bindings, built, read, bound, ?_, kept⟩
  rw [bound.references, slots]
  decide

end ContentQuery.Groq
