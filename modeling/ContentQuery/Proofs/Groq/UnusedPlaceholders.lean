import ContentQuery.Proofs.ExplicitLocale
import ContentQuery.Proofs.Groq.Bindings
import ContentQuery.Proofs.Groq.KeptLiterals

/-!
Placeholders that no text refers to: those of the literals that a filter gives up, and no others.
-/

namespace ContentQuery.Groq

section Projection

/-- The slots that a compilation binds literals to, with its result, meet a condition. -/
def Takes {α : Type} (compile : Compile α) (post : α → List Nat → Prop) : Prop :=
  ∀ context result after, compile context = .ok (result, after) →
    ∃ count, after.bindings.length = context.bindings.length + count ∧
      post result (List.range' context.bindings.length count)

namespace Takes

variable {α β : Type} {post : α → List Nat → Prop} {final : β → List Nat → Prop}

/-- A compilation that binds no literal takes no slot. -/
theorem of_ensures {compile : Compile α}
    (ensures : compile.Ensures fun result _ => post result []) : Takes compile post := by
  intro context result after ran
  obtain ⟨notices, rfl, -, met⟩ := ensures.of_run ran
  exact ⟨0, by simp [Context.extend], met⟩

/-- A result that is given at once takes no slot. -/
theorem pure {result : α} (met : post result []) : Takes (pure result) post :=
  of_ensures (.pure met)

/-- The slots of a second compilation follow those of the first. -/
theorem bind {compile : Compile α} {next : α → Compile β} (first : Takes compile post)
    (then_ : ∀ result slots, post result slots →
      Takes (next result) fun result' slots' => final result' (slots ++ slots')) :
    Takes (compile >>= next) final := by
  -- The slots of the second step are those that follow the slots of the first.
  intro context result' after ran
  obtain ⟨result, between, began, ended⟩ := Compile.ok_of_bind ran
  obtain ⟨count, counted, met⟩ := first _ _ _ began
  obtain ⟨count', counted', met'⟩ := then_ result _ met _ _ _ ended
  refine ⟨count + count', by omega, ?_⟩
  rw [counted, List.range'_append_1] at met'
  exact met'

/-- Asking for what can be written takes no slot. -/
theorem written {writable : Bool} {next : Compile β} (takes : Takes next final) :
    Takes (do Compile.requireWritten writable; next) final := by
  intro context result after ran
  exact takes context result after (Compile.ok_of_requireWritten ran).2

/-- A conversion takes the slots of the literals that it binds. -/
theorem lift {convert : Convert α} (ensures : ∀ slot, convert.Ensures slot
    fun result literals _ => post result (List.range' slot literals.length)) :
    Takes convert.lift post := by
  intro context result after ran
  obtain ⟨literals, given, rfl, met⟩ := (ensures _).of_run (Except.ok.inj ran)
  exact ⟨literals.length, Context.extend_bindings_length _ _ _, met⟩

end Takes

/-- The slots in what is left of a projection. -/
def attributeSlots (result : Option Attribute) : List Nat :=
  result.toList.flatMap Attribute.slots

/-- What is dropped takes no slot. -/
theorem takes_dropAttribute (reason : Reason) (message : String) (name : Value) :
    Takes (dropAttribute reason message name) fun result slots => attributeSlots result = slots :=
  .of_ensures ((ensures_dropAttribute reason message name).mono fun result _ none_ => by
    rw [none_]
    rfl)

/-- A name takes no slot. -/
theorem takes_nameOf? (name : Value) : Takes (nameOf? name) fun _ slots => slots = [] :=
  .of_ensures ((blind_nameOf? name).mono fun _ _ _ => rfl)

/-- An alias takes no slot. -/
theorem takes_convertAlias (name path : Value) :
    Takes (convertAlias name path) fun result slots => attributeSlots result = slots := by
  -- An alias binds nothing, whether it is kept or dropped.
  unfold convertAlias
  split
  · split
    · exact .pure rfl
    · exact .written (takes_dropAttribute _ _ _)
  · exact .written (takes_dropAttribute _ _ _)

/-- A call takes the slots that it names, and none where it is dropped. -/
theorem takes_convertComputed (name function : Value) (arguments : List Value) :
    Takes (convertComputed name function arguments) fun result slots =>
      attributeSlots result = slots := by
  -- The call names a slot for each of its arguments; when one of them has no form, none is bound.
  have bound : Takes ((bindArguments arguments).run).lift fun result slots =>
      result.toOption.getD [] = slots := by
    refine .lift fun slot => ⟨_, _, _, gives_bindArguments arguments slot, ?_⟩
    cases made : arguments.mapM Value.toJson with
    | error fault => rfl
    | ok forms =>
      rw [← length_of_mapM made]
      rfl
  unfold convertComputed
  split
  · split
    · refine .bind bound fun result slots named => ?_
      subst named
      split
      · exact .pure (by simp [attributeSlots, Attribute.slots, Except.toOption])
      · exact .written (takes_dropAttribute _ _ _)
    · exact takes_dropAttribute _ _ _
  · exact .of_ensures .refuse

/-- A reference that is left unresolved takes no slot. -/
theorem takes_leaveUnresolved (limit : Nat) (name : String) :
    Takes (leaveUnresolved limit name) fun result slots => attributeSlots result = slots :=
  .of_ensures (.noted fun _ => rfl)

variable (limit : Nat)

-- By induction on the projections: nothing that was converted is given up.
mutual

/-- A projection takes the slots that its attribute names. -/
theorem takes_convertField : (item : Projection) → (depth : Nat) →
    Takes (convertField limit depth item) fun result slots => attributeSlots result = slots
  -- Each kind of item names the slots of what is below it; only a call takes slots of its own.
  | .excluded name, depth => takes_dropAttribute _ _ _
  | .alias name path, depth => takes_convertAlias name path
  | .computed name function arguments, depth => takes_convertComputed name function arguments
  | .included name, depth => by
    unfold convertField
    refine .bind (takes_nameOf? name) fun known slots none_ => .pure ?_
    subst none_
    cases known <;> rfl
  | .nested name fields, depth => by
    have inside := takes_convertFields fields depth
    unfold convertField
    refine .bind (takes_nameOf? name) fun known slots none_ => ?_
    subst none_
    split
    · exact .pure rfl
    · refine .bind inside fun attributes slots named => ?_
      subst named
      split
      · exact .pure rfl
      · exact .pure (by simp [attributeSlots, Attribute.slots])
  | .resolved name, depth => by
    unfold convertField
    refine .bind (takes_nameOf? name) fun known slots none_ => ?_
    subst none_
    split
    · exact .pure rfl
    · split
      · exact takes_leaveUnresolved limit _
      · exact .pure rfl
  | .expanded name fields, depth => by
    have inside := takes_convertFields fields (depth + 1)
    unfold convertField
    refine .bind (takes_nameOf? name) fun known slots none_ => ?_
    subst none_
    split
    · exact .pure rfl
    · split
      · exact takes_leaveUnresolved limit _
      · refine .bind inside fun attributes slots named => .pure ?_
        subst named
        simp [attributeSlots, Attribute.slots]
  | .stray _, depth => .of_ensures .refuse
termination_by structural item => item

/-- Projections take the slots that their attributes name. -/
theorem takes_convertFields : (items : List Projection) → (depth : Nat) →
    Takes (convertFields limit depth items) fun attributes slots =>
      attributes.flatMap Attribute.slots = slots
  -- By induction on the items, whose slots follow one another.
  | [], depth => .pure rfl
  | item :: rest, depth => by
    have here := takes_convertField item depth
    have later := takes_convertFields rest depth
    have passed : Takes (requireKey item.name) fun _ slots => slots = [] :=
      .of_ensures ((blind_requireKey _).mono fun _ _ _ => rfl)
    unfold convertFields
    refine .bind passed fun _ slots none_ => .bind here fun first slots' named => ?_
    refine .bind later fun others slots'' named' => .pure ?_
    subst none_ named named'
    simp [attributeSlots]
termination_by structural items => items

end

end Projection

section Statement

variable {settings : Settings} {query : Query}

/-- No placeholder has a name that starts with another letter. -/
theorem ne_slotName {name : String} (other : name.toList.head? ≠ some 'p') (slot : Nat) :
    name ≠ Context.slotName slot := by
  rintro rfl
  rw [Context.slotName, String.toList_append] at other
  exact other rfl

/-- The placeholders of a context are those up to the number of its literals. -/
theorem contains_named (context : Context) (slot : Nat) :
    (⟨context.named⟩ : OrderedMap Value Value).contains (.text (Context.slotName slot)) = true ↔
      slot < context.bindings.length := by
  rw [OrderedMap.contains_eq_isSome]
  constructor
  · -- The names are those of the slots in use, and no two slots have the same one.
    contrapose!
    intro beyond
    have named : (⟨context.named⟩ : OrderedMap Value Value).keys.Sublist
        ((namesOf (List.range context.bindings.length)).map .text) := by
      rw [keys_named, namesOf, List.map_map, List.range_eq_range']
      exact List.Sublist.refl _
    rw [get?_eq_none_of_named named]
    · exact Bool.false_ne_true
    · intro member
      obtain ⟨inside, among, same⟩ := List.mem_map.mp member
      have within := List.mem_range.mp among
      have equal := slotName_injective same
      omega
  · intro inside
    have found : (⟨context.named⟩ : OrderedMap Value Value).get?
        (.text (Context.slotName slot)) = context.bindings[slot]? :=
      get?_of_named (List.prefix_refl _) inside
    rw [found, List.getElem?_eq_getElem inside]
    rfl

/-- The placeholders are parameters, and what else is sent without passing on is none of them. -/
theorem contains_of_convertParameters {context after : Context}
    {parameters : OrderedMap Value Value} (unpassed : query.params.entries = [])
    (ran : convertParameters settings query context = .ok (parameters, after)) (slot : Nat) :
    parameters.contains (.text (Context.slotName slot)) = true ↔
      slot < context.bindings.length := by
  -- Beside the placeholders there are locales at most, under names of their own.
  unfold convertParameters at ran
  rw [unpassed] at ran
  cases ran
  rw [← contains_named context slot, OrderedMap.contains_eq_isSome, OrderedMap.contains_eq_isSome,
    get?_addLocale_of_ne (ne_slotName (by decide) slot),
    get?_addLocale_of_ne (ne_slotName (by decide) slot)]

/-- A compiled statement is well-formed. -/
theorem wellFormed_of_compile {nodes : List Value} {own everywhere : List Condition}
    {compiled : Compiled Statement Value}
    (structured : settings.globalFilter = .conditions nodes everywhere)
    (ran : compile settings query own = .ok compiled) : compiled.query.WellFormed := by
  -- The filter, the order and the projection were each made well-formed, and they are put together
  -- as they are.
  obtain ⟨_, _, _, _, _, filtered, sorted, -, -, projected, -⟩ := stages_of_compile ran
  obtain ⟨-, -, -, parts, -⟩ := (ensures_filterParts structured query own).of_run filtered
  obtain ⟨-, -, -, paths⟩ := (ensures_convertOrder query.order).of_run sorted
  refine ⟨parts, paths, ?_⟩
  obtain ⟨fields, -, -, ⟨-, none_, -⟩ | ⟨between, attributes, -, converted, some_⟩⟩ :=
    fields_of_projectionOf projected
  · rw [none_]
    exact nofun
  · obtain ⟨-, settled⟩ := settles_convertFields _ fields 0 _ _ _ converted
    rw [some_]
    exact fun head member => ((settled _ (List.prefix_refl _)).isBound head member).1

/-- A projection takes the slots that it names. -/
theorem takes_projectionOf (settings : Settings) (query : Query) :
    Takes (projectionOf settings query) fun projection slots =>
      (projection.getD []).flatMap Attribute.slots = slots := by
  -- Without a projection no slot is taken, and otherwise those of its fields.
  intro context projection after ran
  obtain ⟨fields, -, -, ⟨-, rfl, same⟩ | ⟨between, attributes, same, converted, rfl⟩⟩ :=
    fields_of_projectionOf ran
  · exact ⟨0, by rw [same, Nat.add_zero], rfl⟩
  · rw [← same]
    exact takes_convertFields _ fields 0 _ _ _ converted

/-- The slots of a compiled statement are those kept of its filter, and all of its projection. -/
theorem slots_of_compile {nodes : List Value} {own everywhere : List Condition}
    {compiled : Compiled Statement Value}
    (structured : settings.globalFilter = .conditions nodes everywhere)
    (unpassed : query.params.entries = [])
    (ran : compile settings query own = .ok compiled) :
    ∃ count, (allKeptLiterals (own ++ everywhere)).length ≤ count ∧
      (∀ slot, compiled.parameters.contains (.text (Context.slotName slot)) = true ↔
        slot < count) ∧
      ∀ slot, slot ∈ compiled.query.slots ↔
        slot < count ∧ (allKeptLiterals (own ++ everywhere))[slot]? ≠ some false := by
  obtain ⟨_, _, before, _, _, filtered, -, -, unbound, projected, given⟩ :=
    stages_of_compile ran
  obtain ⟨literals, notices, rfl, length, kept⟩ :=
    (ensures_filterParts_kept structured query own).of_run filtered
  obtain ⟨count, counted, taken⟩ := takes_projectionOf settings query _ _ _ projected
  -- The projection takes its slots behind those of the filter.
  have start : before.bindings.length = (allKeptLiterals (own ++ everywhere)).length := by
    rw [unbound, Context.extend_bindings_length, length]
    exact Nat.zero_add _
  rw [start] at counted taken
  refine ⟨_, Nat.le_add_right _ count, fun slot => ?_, fun slot => ?_⟩
  · rw [contains_of_convertParameters unpassed given, counted]
  · rw [Statement.slots, List.mem_append, kept, mem_keptSlots, taken, List.mem_range'_1]
    generalize allKeptLiterals (own ++ everywhere) = literals
    -- A slot belongs to a literal of the filter, or lies behind all of them.
    by_cases inside : slot < literals.length
    · rw [List.getElem?_eq_getElem inside]
      have behind : ¬ literals.length ≤ slot := Nat.not_le_of_lt inside
      have within : slot < literals.length + count := Nat.lt_add_right count inside
      simp [behind, within, List.getElem?_eq_some_iff, inside]
    · rw [List.getElem?_eq_none (Nat.le_of_not_lt inside)]
      simp [List.getElem?_eq_some_iff, inside, Nat.le_of_not_lt inside]

end Statement

/--
Of the placeholders that a query compiles to, the text refers exactly to those that are left: each
of a projection, and each of a literal in the filter that does not stand in an `or`, at any depth,
one of whose alternatives constrains nothing. So the text refers to all of them exactly where no
literal does.
-/
theorem unused_placeholders {settings : Settings} {query : Query}
    {compiled : Compiled Statement Value} {nodes : List Value} {everywhere : List Condition}
    (structured : settings.globalFilter = .conditions nodes everywhere)
    (unpassed : query.params.entries = [])
    (built : (Compiler.groq settings).compileQuery query = .ok (.statement compiled)) :
    ∃ own count, (Compiler.groq settings).conditionsOf query = .ok own ∧
      (allKeptLiterals (own ++ everywhere)).length ≤ count ∧
      (∀ slot, compiled.parameters.contains (.text (Context.slotName slot)) = true ↔
        slot < count) ∧
      (∀ name, name ∈ references compiled.query.text ↔ ∃ slot < count,
        name = Context.slotName slot ∧
          (allKeptLiterals (own ++ everywhere))[slot]? ≠ some false) ∧
      ((∀ name, name ∈ references compiled.query.text ↔
          ∃ slot < count, name = Context.slotName slot) ↔
        false ∉ allKeptLiterals (own ++ everywhere)) := by
  obtain ⟨own, read, converted⟩ := Compiler.conditions_of_compileQuery built
  have ran := statement_of_output converted
  obtain ⟨count, within, sent, slots⟩ := slots_of_compile structured unpassed ran
  have named : ∀ name, name ∈ references compiled.query.text ↔ ∃ slot < count,
      name = Context.slotName slot ∧
        (allKeptLiterals (own ++ everywhere))[slot]? ≠ some false := by
    intro name
    rw [references_text (wellFormed_of_compile structured ran), namesOf, List.mem_map]
    simp only [slots, and_assoc, eq_comm]
    exact exists_congr fun slot => and_congr_right' and_comm
  refine ⟨own, count, read, within, sent, named, ?_⟩
  -- A literal that was given up has a placeholder all the same, which is then not referred to.
  constructor
  · intro all given
    obtain ⟨slot, inside, same⟩ := List.mem_iff_getElem.mp given
    have there := (all _).mpr ⟨slot, Nat.lt_of_lt_of_le inside within, rfl⟩
    obtain ⟨other, -, equal, kept⟩ := (named _).mp there
    obtain rfl := slotName_injective equal
    exact kept (List.getElem?_eq_some_iff.mpr ⟨inside, same⟩)
  · intro none_ name
    rw [named]
    refine exists_congr fun slot => and_congr_right' (and_iff_left fun lost => none_ ?_)
    exact List.mem_of_getElem? lost

/-- A node that is met by any document, or by those with a literal in a field. -/
def freedNode : Value :=
  .node .null .null .null .null
    (.list [.leaf (.text "a") (.text "==") (.int 1),
      .node .null .null .null (.list []) .null .null]) .null

/-- A query with a literal in front of a freed one, and one in its projection. -/
def freedQuery : Query :=
  { Query.everything with
    filter := [.leaf (.text "b") (.text "==") (.int 2), freedNode]
    projection := .map [(.text "c", .map [(.text "fn", .text "round"),
      (.text "args", .list [.int 3])])] }

/-- Of three literals in a filter, the text refers to all but the second, which was given up. -/
theorem unused_placeholders_freed :
    ∃ compiled own count,
      (Compiler.groq tenantSettings).compileQuery freedQuery = .ok (.statement compiled) ∧
        (Compiler.groq tenantSettings).conditionsOf freedQuery = .ok own ∧
          (∀ slot, compiled.parameters.contains (.text (Context.slotName slot)) = true ↔
            slot < count) ∧
          ∀ name, name ∈ references compiled.query.text ↔ ∃ slot < count,
            name = Context.slotName slot ∧ [true, false, true][slot]? ≠ some false := by
  -- The first and the last literal are kept, and the one between them stands in a disjunction that
  -- always holds.
  obtain ⟨compiled, built⟩ : ∃ compiled,
      (Compiler.groq tenantSettings).compileQuery freedQuery = .ok (.statement compiled) := ⟨_, rfl⟩
  obtain ⟨own, given, kept⟩ : ∃ own,
      (Compiler.groq tenantSettings).conditionsOf freedQuery = .ok own ∧
        allKeptLiterals (own ++ [.leaf (.text "tenant") (.known .equal) (.text "a")]) =
          [true, false, true] := ⟨_, rfl, rfl⟩
  obtain ⟨own', count, read, -, sent, named, -⟩ := unused_placeholders rfl rfl built
  obtain rfl := Except.ok.inj (given.symm.trans read)
  rw [kept] at named
  exact ⟨compiled, own, count, built, given, sent, named⟩

/-- The placeholder of a literal that was given up is a parameter, and no text refers to it. -/
theorem freed_placeholder_unreferenced :
    ∃ compiled, (Compiler.groq Settings.standard).compileQuery
        { Query.everything with filter := [freedNode] } = .ok (.statement compiled) ∧
      compiled.parameters.contains (.text "p0") = true ∧ compiled.query.text = "*" ∧
        "p0" ∉ references compiled.query.text := by
  refine ⟨_, rfl, rfl, rfl, by decide⟩

end ContentQuery.Groq
