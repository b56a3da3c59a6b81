import ContentQuery.Proofs.Contentful.Entries
import ContentQuery.Proofs.NumericalEquality
import ContentQuery.Proofs.OrderedMap

/-! Merged conditions: what they assign does not depend on the map that they are merged into. -/

namespace ContentQuery.Contentful

open Compile (Ensures)
open scoped List

/-- The keys that conditions set: those of a section, and the one for links to an entry. -/
def IsFilterKey (key : String) : Prop :=
  "sys.".toList <+: key.toList ∨ "fields.".toList <+: key.toList ∨ key = "links_to_entry"

/-- A key of a field is set by conditions, whatever follows the field. -/
theorem isFilterKey_fieldKey (path suffix : String) : IsFilterKey (fieldKey path ++ suffix) := by
  -- The key begins with one of the two sections, and a suffix does not change that.
  unfold IsFilterKey
  rw [String.toList_append]
  rcases fieldKey_opens path with opens | opens
  · exact Or.inl (opens.trans (List.prefix_append _ _))
  · exact Or.inr (Or.inl (opens.trans (List.prefix_append _ _)))

/-- No condition sets one of the parameters beside the filter. -/
theorem not_option_of_isFilterKey {key : String} (filters : IsFilterKey key) :
    key ∉ optionNames := by
  -- None of the options begins like a filter's key.
  intro option
  simp only [optionNames, List.mem_cons, List.not_mem_nil, or_false] at option
  rcases option with rfl | rfl | rfl | rfl | rfl | rfl <;>
    exact absurd filters (by simp [IsFilterKey])

/-- Every key of a map is one that conditions set. -/
def Filters (map : FilterMap) : Prop :=
  ∀ entry ∈ map.entries, IsFilterKey entry.1

/-- What a condition sets that joins no others: nothing, or one key to what can be compared. -/
inductive AtMostOne : FilterMap → Prop where
  | none : AtMostOne .empty
  | one {key : String} {value : Parameter} (filters : IsFilterKey key)
      (sensible : value.sense?.isSome = true) : AtMostOne (single key value)

/-- Reading a field path gives a result or is refused. -/
theorem ensures_pathOf (field : Value) (role : String) :
    (pathOf? field role).Ensures fun _ _ => True :=
  (ensures_path field role).mono fun _ _ _ => trivial

/-- What is dropped with a notice sets nothing. -/
theorem ensures_atMostOne_dropped {reason : Reason} {message : String} {field operator : Value} :
    Ensures (do Compile.degrade reason message field operator; return OrderedMap.empty)
      fun map _ => AtMostOne map := by
  have noted : (Compile.degrade reason message field operator).Ensures fun _ _ => True :=
    .degrade trivial
  exact .bind noted fun _ _ _ => .pure .none

/-- A reference comparison sets the key for links, or one of a field. -/
theorem ensures_atMostOne_reference (field value : Value) :
    (convertReference field value).Ensures fun map _ => AtMostOne map := by
  refine .bind (ensures_parameter field .references value) fun parameter _ read => ?_
  rcases read with ⟨rfl, -⟩ | ⟨parameter, rfl, given, -⟩
  · exact .pure .none
  · have sensible := Parameter.sensible_ofValue given
    dsimp only
    -- Links to an entry are one parameter, and a reference through a field is another.
    split
    · split
      · exact ensures_atMostOne_dropped
      · exact .pure (.one (Or.inr (Or.inr rfl)) sensible)
    · refine .bind (ensures_pathOf _ _) fun path _ _ => ?_
      split
      · exact .pure .none
      · refine .pure (.one (Or.inr (Or.inl ?_)) sensible)
        simp only [String.toList_append, List.append_assoc]
        exact List.prefix_append _ _

/-- A leaf sets the key of its field, if any. -/
theorem ensures_atMostOne_leaf (field : Value) (comparison : Comparison) (value : Value) :
    (convertLeaf field comparison value).Ensures fun map _ => AtMostOne map := by
  -- A leaf writes one entry under the key of its field, or is dropped.
  unfold convertLeaf
  split
  · exact ensures_atMostOne_reference field value
  · split
    · refine ensures_comparison (fun _ _ => .none) fun path entry _ _ made => ?_
      rcases entryOf_cases made with ⟨word, rfl⟩ | ⟨parameter, given, rfl⟩
      · exact .one (isFilterKey_fieldKey path _) rfl
      · exact .one (isFilterKey_fieldKey path _) (Parameter.sensible_ofValue given)
    · exact ensures_atMostOne_dropped
  · exact ensures_atMostOne_dropped

/-- Alternatives on one field set a key of the field. -/
theorem ensures_atMostOne_membership (field : Value) (values : List Value) :
    (convertMembership field values).Ensures fun map _ => AtMostOne map := by
  -- A membership writes one entry, or is dropped.
  refine .bind (ensures_pathOf _ _) fun path _ _ => ?_
  split
  · exact .pure .none
  · split
    · rename_i parameter made
      exact .pure (.one (isFilterKey_fieldKey _ _) (Parameter.sensible_ofItems made))
    · exact .written ensures_atMostOne_dropped

/-- A negation sets the key that its leaf would set. -/
theorem ensures_atMostOne_negation (inner : Condition) :
    (convertNegation inner).Ensures fun map _ => AtMostOne map := by
  -- A negation is the leaf against its equality, or is dropped.
  unfold convertNegation
  split
  · exact ensures_atMostOne_dropped
  · split
    · exact ensures_atMostOne_leaf _ _ _
    · exact ensures_atMostOne_dropped

/-- The notices of a merge are all about a key that is set more than once. -/
def Collisions (notices : List Notice) : Prop :=
  ∀ notice ∈ notices, notice.reason = .keyCollision

/--
Merging assigns the entries of the second map in turn. All that is noted on the way are keys that
had a different value, and there is none exactly when both maps agree where both have a value.
-/
theorem gives_merge (map source : FilterMap) :
    ∃ notices, (merge map source).Gives (map.union source) notices ∧ Collisions notices ∧
      (source.Distinct → (notices = [] ↔ ∀ entry ∈ source.entries, ∀ old,
        map.get? entry.1 = some old → old.same entry.2 = true)) := by
  obtain ⟨entries⟩ := source
  show ∃ notices, (mergeEntries entries map).Gives _ notices ∧ _
  -- The map that is assigned to grows, so that it is general in the induction.
  induction entries generalizing map with
  | nil =>
    exact ⟨[], Compile.gives_pure map, List.forall_mem_nil _,
      fun _ => iff_of_true rfl (List.forall_mem_nil _)⟩
  | cons entry rest ih =>
    obtain ⟨notices, merged, collisions, silent⟩ := ih (map.insert entry.1 entry.2)
    -- The entries behind meet the values that they would have met without this entry.
    have later (distinct : OrderedMap.Distinct ⟨entry :: rest⟩) :
        notices = [] ↔ ∀ next ∈ rest, ∀ old,
          map.get? next.1 = some old → old.same next.2 = true := by
      obtain ⟨apart, distinct⟩ := List.pairwise_cons.mp distinct
      refine (silent distinct).trans (forall₂_congr fun next member => ?_)
      rw [OrderedMap.get?_insert_of_ne (OrderedMap.isDiscrete _) _
        (ne_of_beq_false (apart next member))]
    unfold mergeEntries
    -- A different value is noted, and both a new key and an equal value are not.
    split
    · rename_i differs
      obtain ⟨old, found, unequal⟩ :
          ∃ old, map.get? entry.1 = some old ∧ old.same entry.2 = false := by
        simpa [Option.any_eq_true] using differs
      refine ⟨_, (Compile.gives_degrade _ _ _ _).bind merged,
        List.forall_mem_cons.mpr ⟨rfl, collisions⟩, fun _ => iff_of_false nofun fun agree => ?_⟩
      rw [agree entry List.mem_cons_self old found] at unequal
      exact nomatch unequal
    · rename_i alike
      refine ⟨notices, merged, collisions, fun distinct => (later distinct).trans ?_⟩
      rw [List.forall_mem_cons]
      refine (and_iff_right fun old found => ?_).symm
      simpa [found] using alike

/-- Merging gives the union of two maps, and is never refused. -/
theorem ensures_merge (map source : FilterMap) :
    (merge map source).Ensures fun merged _ => merged = map.union source := by
  obtain ⟨notices, merged, -⟩ := gives_merge map source
  exact Or.inr ⟨_, notices, merged, rfl⟩

/-- A property of maps that what single conditions set has, and that unions keep. -/
structure Closed (holds : FilterMap → Prop) : Prop where
  atMostOne {map : FilterMap} : AtMostOne map → holds map
  union {map source : FilterMap} : holds map → holds source → holds (map.union source)

section Closed

variable {holds : FilterMap → Prop} (closed : Closed holds)
include closed

mutual

/-- It holds of what a condition sets. -/
theorem holds_convert : (condition : Condition) →
    (convert condition).Ensures fun map _ => holds map
  | .leaf field comparison value =>
    (ensures_atMostOne_leaf field comparison value).mono fun _ _ => closed.atMostOne
  | .all conditions => holds_convertInto conditions (closed.atMostOne .none)
  | .any [] => ensures_atMostOne_dropped.mono fun _ _ => closed.atMostOne
  | .any (first :: rest) => by
    have firstHolds := holds_convert first
    unfold convert
    -- Of a disjunction, nothing is compiled, or its first branch, or a membership.
    split
    · exact .pure (closed.atMostOne .none)
    · split
      · exact firstHolds
      · split
        · exact (ensures_atMostOne_membership _ _).mono fun _ _ => closed.atMostOne
        · exact .bind (ensures_noteAcrossFields _) fun _ _ _ => firstHolds
  | .not condition => (ensures_atMostOne_negation condition).mono fun _ _ => closed.atMostOne
termination_by structural condition => condition

/-- It holds of what conditions are merged to, where it holds of the map they are merged into. -/
theorem holds_convertInto : (conditions : List Condition) → {map : FilterMap} → holds map →
    (convertInto map conditions).Ensures fun merged _ => holds merged
  -- By induction on the conditions; a union of two maps that hold holds.
  | [], _, held => .pure held
  | condition :: rest, map, held => by
    refine .bind (holds_convert condition) fun source _ sourced =>
      .bind (ensures_merge map source) fun merged _ same => ?_
    rw [same]
    exact holds_convertInto rest (closed.union held sourced)
termination_by structural conditions => conditions

end

end Closed

/-- Setting keys of conditions only is a closed property. -/
theorem closed_filters : Closed Filters where
  atMostOne := by
    rintro _ (_ | ⟨filters, -⟩)
    · exact List.forall_mem_nil _
    · exact List.forall_mem_singleton.mpr filters
  union filters others _ member := (OrderedMap.mem_of_union member).elim (filters _) (others _)

/-- A condition sets keys of its own only. -/
theorem ensures_filters (condition : Condition) :
    (convert condition).Ensures fun map _ => Filters map :=
  holds_convert closed_filters condition

/--
What conditions assign: they are refused in every map, or they set keys of their own to the same
values in every map.
-/
def Assigns (compile : FilterMap → Compile FilterMap) : Prop :=
  (∃ fault, ∀ map, (compile map).Refuses fault) ∨
    ∃ assigned, Filters assigned ∧
      ∀ map, ∃ notices, (compile map).Gives (map.union assigned) notices

/-- Conditions assign the same to every map that they are merged into. -/
theorem assigns_convertInto (conditions : List Condition) :
    Assigns fun map => convertInto map conditions := by
  induction conditions with
  | nil =>
    exact Or.inr ⟨.empty, closed_filters.atMostOne .none, fun map => ⟨[], Compile.gives_pure map⟩⟩
  | cons condition rest ih =>
    -- The first condition is converted without a look at the map, and then merged into it.
    rcases ensures_filters condition with ⟨fault, refused⟩ | ⟨source, notices, gives, filters⟩
    · exact Or.inl ⟨fault, fun map => refused.bind⟩
    · rcases ih with ⟨fault, refused⟩ | ⟨assigned, others, given⟩
      · refine Or.inl ⟨fault, fun map => ?_⟩
        obtain ⟨_, merged, -⟩ := gives_merge map source
        exact gives.refuses (merged.refuses (refused _))
      · refine Or.inr ⟨⟨source.entries ++ assigned.entries⟩,
          List.forall_mem_append.mpr ⟨filters, others⟩, fun map => ?_⟩
        obtain ⟨_, merged, -⟩ := gives_merge map source
        obtain ⟨_, ended⟩ := given (map.union source)
        rw [OrderedMap.union_append]
        exact ⟨_, gives.bind (merged.bind ended)⟩

/-- Conditions in two lists are merged one list after the other. -/
theorem convertInto_append (map : FilterMap) (first second : List Condition) :
    convertInto map (first ++ second) =
      convertInto map first >>= fun merged => convertInto merged second := by
  -- By induction on the first conditions.
  induction first generalizing map with
  | nil => rfl
  | cons condition rest ih =>
    simp only [List.cons_append, convertInto, bind_assoc]
    exact bind_congr fun source => bind_congr fun merged => ih merged

/-- What conditions assign was assigned in every run that they had. -/
theorem assigned_of_run {start filter : FilterMap} {conditions : List Condition}
    {context after : Context}
    (ran : convertInto start conditions context = .ok (filter, after)) :
    ∃ assigned, filter = start.union assigned ∧ Filters assigned ∧
      ∀ map, ∃ notices, (convertInto map conditions).Gives (map.union assigned) notices := by
  -- The run was not refused, so that the conditions assign something to every map.
  rcases assigns_convertInto conditions with ⟨fault, refused⟩ | ⟨assigned, filters, gives⟩
  · exact absurd ((refused start context).symm.trans ran) nofun
  · obtain ⟨notices, given⟩ := gives start
    exact ⟨assigned, (given.of_run ran).1, filters, gives⟩

/-- What conditions give by themselves stays in every map that they are merged into last. -/
theorem get?_of_convertInto {start filter : FilterMap} {first second : List Condition}
    {context after : Context}
    (ran : convertInto start (first ++ second) context = .ok (filter, after)) :
    ∃ map notices, (convertInto .empty second).Gives map notices ∧ Filters map ∧
      ∀ key value, map.get? key = some value → filter.get? key = some value := by
  -- What comes last is assigned over what was there, so that it does not depend on it.
  rw [convertInto_append] at ran
  obtain ⟨merged, between, -, ran⟩ := Compile.ok_of_bind ran
  obtain ⟨assigned, rfl, filters, gives⟩ := assigned_of_run ran
  obtain ⟨notices, given⟩ := gives .empty
  refine ⟨_, notices, given, fun entry member => ?_, fun key value found => ?_⟩
  · rcases OrderedMap.mem_of_union member with impossible | there
    · exact nomatch impossible
    · exact filters entry there
  · -- A key that is assigned has the assigned value, whatever it had before.
    rw [OrderedMap.get?_union (OrderedMap.isDiscrete key), found, Option.some_or]

/-- The map that conditions are merged into: it names the first of the types, if there are any. -/
def startOf (query : Query) : FilterMap :=
  match query.types.names with
  | [] => .empty
  | first :: _ => single "content_type" (.text first)

/-- The map that conditions are merged into has no key but the one of the content type. -/
theorem key_of_startOf {query : Query} {entry : String × Parameter}
    (member : entry ∈ (startOf query).entries) : entry.1 = "content_type" := by
  unfold startOf at member
  split at member
  · exact nomatch member
  · rw [List.mem_singleton.mp member]

/-- The notice about the types that are not queried, if there are any. -/
def noteTypes (query : Query) : Compile Unit :=
  match query.types.names with
  | first :: _ :: _ => Compile.remark .multiType
    s!"Contentful queries one content type at a time; using '{first}'"
  | _ => pure ()

/-- The notice about further types is all that is noted about them. -/
theorem ensures_noteTypes (query : Query) :
    (noteTypes query).Ensures fun _ notices => ∀ notice ∈ notices, notice.reason = .multiType := by
  unfold noteTypes
  split
  · exact .degrade (List.forall_mem_singleton.mpr rfl)
  · exact .pure (List.forall_mem_nil _)

/-- The filter of a query is what all conditions are merged to, behind a notice about the types. -/
theorem filterOf_eq (settings : Settings) (query : Query) (own : List Condition) :
    filterOf settings query own = noteTypes query >>= fun _ =>
      convertInto (startOf query) (own ++ settings.globalFilter.conditionList) := by
  unfold filterOf noteTypes startOf
  -- No type, one type and several types are told from each other.
  rcases query.types.names with _ | ⟨first, _ | ⟨second, others⟩⟩
  · rfl
  · rfl
  · rfl

/-- Converting the filter looks at nothing before it. -/
theorem blind_filterOf (settings : Settings) (query : Query) (own : List Condition) :
    (filterOf settings query own).Blind := by
  -- The types and the conditions are converted without a look at the bindings.
  have any : Closed fun _ => True := ⟨fun _ => trivial, fun _ _ => trivial⟩
  rw [filterOf_eq]
  exact .bind ((ensures_noteTypes query).mono fun _ _ _ => trivial) fun _ =>
    (holds_convertInto any _ trivial).mono fun _ _ _ => trivial

/-- The parameters of the global conditions are those of the filter, whatever the query says. -/
theorem get?_of_filterOf {settings : Settings} {query : Query} {own : List Condition}
    {filter : FilterMap} {context after : Context}
    (ran : filterOf settings query own context = .ok (filter, after)) :
    ∃ map notices,
      (convertInto .empty settings.globalFilter.conditionList).Gives map notices ∧ Filters map ∧
        ∀ key value, map.get? key = some value → filter.get? key = some value := by
  rw [filterOf_eq] at ran
  obtain ⟨_, between, -, ran⟩ := Compile.ok_of_bind ran
  exact get?_of_convertInto ran

/-- The keys of a filter are those of conditions, and the one of the content type. -/
theorem keys_of_filterOf {settings : Settings} {query : Query} {own : List Condition}
    {filter : FilterMap} {context after : Context}
    (ran : filterOf settings query own context = .ok (filter, after)) :
    ∀ entry ∈ filter.entries, IsFilterKey entry.1 ∨ entry.1 = "content_type" := by
  rw [filterOf_eq] at ran
  obtain ⟨_, between, -, ran⟩ := Compile.ok_of_bind ran
  intro entry member
  obtain ⟨assigned, rfl, filters, -⟩ := assigned_of_run ran
  -- Only the content type opens the map that the conditions are merged into.
  rcases OrderedMap.mem_of_union member with opens | there
  · exact Or.inr (key_of_startOf opens)
  · exact Or.inl (filters entry there)

/-- A parameter of the filter is sent under its key, whatever is passed through. -/
theorem get?_allParameters {compiled : Request} {query : Query} {own : OrderedMap Value Value}
    (names : own.keys <+ optionNames.map Value.text)
    (given : compiled.parameters =
      passed (convertQuery.inFilter compiled.query) id query.params.entries own)
    {key : String} {value : Parameter} (filters : IsFilterKey key)
    (found : compiled.query.get? key = some value) :
    (allParameters compiled).get? (.text key) = some value.toValue := by
  have discrete := Value.isDiscrete_text key
  -- None of the other parameters has the key: it is no option, and it is taken.
  have absent : own.get? (.text key) = none :=
    get?_eq_none_of_named names (not_option_of_isFilterKey filters)
  have taken : convertQuery.inFilter compiled.query (.text key) = true := by
    show compiled.query.contains key = true
    rw [OrderedMap.contains_eq_isSome, found]
    rfl
  have untouched : compiled.parameters.contains (.text key) = false := by
    rw [OrderedMap.contains_eq_false, given, get?_passed _ _ discrete, absent, taken]
    rfl
  unfold allParameters
  rw [OrderedMap.get?_union_of_not_contains discrete _ untouched]
  -- Texts are equal as values exactly where they are equal as keys of the filter.
  have same : ((fun entry : Value × Value => entry.1 == Value.text key) ∘
      fun entry : String × Parameter => (Value.text entry.1, entry.2.toValue)) =
        fun entry => entry.1 == key := by
    funext entry
    simp [BEq.beq, Value.same, Value.sameAtom]
  have looked := congrArg (Option.map Parameter.toValue) found
  rw [OrderedMap.get?, Option.map_map] at looked
  rw [OrderedMap.get?, List.find?_map, Option.map_map, same]
  exact looked

end ContentQuery.Contentful
