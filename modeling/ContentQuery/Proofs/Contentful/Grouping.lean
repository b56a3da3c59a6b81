import ContentQuery.Proofs.Contentful.Options

/-! Conjunctions among the conditions of a query: however these are grouped, they merge alike. -/

namespace ContentQuery

mutual

/-- What a condition joins: the conditions that it reaches through conjunctions only. -/
def Condition.conjuncts : Condition → List Condition
  | .all conditions => Condition.conjunctsOf conditions
  | other => [other]
termination_by structural input => input

/-- What conditions in a row join. -/
def Condition.conjunctsOf : List Condition → List Condition
  | [] => []
  | condition :: rest => condition.conjuncts ++ Condition.conjunctsOf rest
termination_by structural input => input

end

namespace Condition

/-- Conditions in a row join what the first and the last of them join. -/
theorem conjunctsOf_append (first last : List Condition) :
    conjunctsOf (first ++ last) = conjunctsOf first ++ conjunctsOf last := by
  induction first with
  | nil => rfl
  | cons condition rest ih =>
    rw [List.cons_append, conjunctsOf, conjunctsOf, ih, List.append_assoc]

/-- Conditions join the same ones whether or not some of them in a row are a conjunction. -/
theorem conjunctsOf_group (before group behind : List Condition) :
    conjunctsOf (before ++ .all group :: behind) = conjunctsOf (before ++ group ++ behind) := by
  calc conjunctsOf (before ++ .all group :: behind)
      = conjunctsOf before ++ conjunctsOf (.all group :: behind) := conjunctsOf_append _ _
    _ = conjunctsOf before ++ (conjunctsOf group ++ conjunctsOf behind) := rfl
    _ = conjunctsOf (before ++ group ++ behind) := by
      rw [conjunctsOf_append, conjunctsOf_append, List.append_assoc]

end Condition

namespace Contentful

open scoped List

/-- A map of distinct keys, all of whose values can be compared. -/
structure Sound (map : FilterMap) : Prop where
  distinct : map.Distinct
  sensible : ∀ entry ∈ map.entries, entry.2.sense?.isSome = true

/-- Being sound is a closed property. -/
theorem closed_sound : Closed Sound where
  atMostOne := by
    -- A union keeps the keys apart and takes its values from the two maps.
    rintro _ (_ | ⟨-, sensible⟩)
    · exact ⟨List.Pairwise.nil, List.forall_mem_nil _⟩
    · exact ⟨List.pairwise_singleton _ _, List.forall_mem_singleton.mpr sensible⟩
  union first second := ⟨first.distinct.union _, fun entry member =>
    (OrderedMap.mem_of_union member).elim (first.sensible entry) (second.sensible entry)⟩

/-- The map that conditions are merged into is sound. -/
theorem sound_startOf (query : Query) : Sound (startOf query) := by
  unfold startOf
  split
  · exact closed_sound.atMostOne .none
  · exact ⟨List.pairwise_singleton _ _, List.forall_mem_singleton.mpr rfl⟩

section Agreement

/-- Two maps agree on the keys that both have. -/
def Agree (first second : FilterMap) : Prop :=
  ∀ key value value', first.get? key = some value → second.get? key = some value' →
    value.sense? = value'.sense?

/-- Two maps have a common key, and different values for it. -/
def Conflict (first second : FilterMap) : Prop :=
  ∃ key value value', first.get? key = some value ∧ second.get? key = some value' ∧
    value.same value' = false

variable {map first second : FilterMap}

/-- Maps agree where none of their values differ. -/
theorem agree_iff (sound : Sound second) : Agree first second ↔ ¬ Conflict first second := by
  -- On values that can be sent, being the same and having the same sense are one.
  have alike {key : String} {value value' : Parameter} (found : second.get? key = some value') :
      value.same value' = true ↔ value.sense? = value'.sense? :=
    Parameter.same_iff_sense (sound.sensible _ (OrderedMap.mem_of_get? found))
  constructor
  · rintro agree ⟨key, value, value', found, found', differ⟩
    rw [(alike found').mpr (agree key value value' found found')] at differ
    exact nomatch differ
  · intro none_ key value value' found found'
    by_contra differ
    have unequal : value.same value' = false := Bool.eq_false_iff.mpr (mt (alike found').mp differ)
    exact none_ ⟨key, value, value', found, found', unequal⟩

/-- Agreement is mutual. -/
theorem Agree.symm (agree : Agree first second) : Agree second first :=
  fun key value value' found found' => (agree key value' value found' found).symm

/-- A map agrees with the union of two that agree exactly when it agrees with both. -/
theorem agree_union (distinct : second.Distinct) (agree : Agree first second) :
    Agree map (first.union second) ↔ Agree map first ∧ Agree map second := by
  have joined (key : String) := OrderedMap.get?_union_of_distinct first distinct key
  constructor
  · intro whole
    constructor
    · intro key value value' found found'
      -- What the second map has in the same place has the same sense.
      cases there : second.get? key with
      | none => exact whole key value value' found (by rw [joined, there, found', Option.none_or])
      | some last =>
        have same := whole key value last found (by rw [joined, there, Option.some_or])
        exact same.trans (agree key value' last found' there).symm
    · intro key value value' found found'
      exact whole key value value' found (by rw [joined, found', Option.some_or])
  · rintro ⟨before, behind⟩ key value value' found found'
    rw [joined, Option.or_eq_some_iff] at found'
    rcases found' with there | ⟨-, there⟩
    · exact behind key value value' found there
    · exact before key value value' found there

/-- A map agrees with maps joined in turn exactly when it agrees with all that agree in pairs. -/
theorem agree_foldl {maps : List FilterMap} (distinct : ∀ other ∈ maps, other.Distinct)
    (agree : (first :: maps).Pairwise Agree) :
    Agree map (maps.foldl OrderedMap.union first) ↔
      Agree map first ∧ ∀ other ∈ maps, Agree map other := by
  induction maps generalizing first with
  | nil => simp
  | cons next rest ih =>
    obtain ⟨here, others⟩ := List.forall_mem_cons.mp distinct
    obtain ⟨ahead, later⟩ := List.pairwise_cons.mp agree
    obtain ⟨between, ahead⟩ := List.forall_mem_cons.mp ahead
    obtain ⟨behind, apart⟩ := List.pairwise_cons.mp later
    -- The first two maps are joined, and what agrees with both agrees with their union.
    have joined : (first.union next :: rest).Pairwise Agree := by
      refine List.pairwise_cons.mpr ⟨fun other member => ?_, apart⟩
      exact ((agree_union here between).mpr
        ⟨(ahead other member).symm, (behind other member).symm⟩).symm
    rw [List.foldl_cons, ih others joined, agree_union here between, List.forall_mem_cons,
      and_assoc]

/-- Nothing is contradicted by the map without entries. -/
theorem agree_empty : Agree map .empty :=
  fun _ _ _ _ found => nomatch found

/-- Maps of which some are joined by themselves agree in pairs as they do one by one. -/
theorem pairwise_agree_append {group rest : List FilterMap}
    (distinct : ∀ other ∈ group, other.Distinct) :
    (.empty :: group).Pairwise Agree ∧ Agree map (group.foldl OrderedMap.union .empty) ∧
        (map.union (group.foldl OrderedMap.union .empty) :: rest).Pairwise Agree ↔
      (map :: (group ++ rest)).Pairwise Agree := by
  have whole : (group.foldl OrderedMap.union .empty).Distinct :=
    OrderedMap.Distinct.foldl_union List.Pairwise.nil group
  -- What agrees with the group as a whole agrees with each of its maps.
  have each (inner : (.empty :: group).Pairwise Agree) (other : FilterMap) :
      Agree other (group.foldl OrderedMap.union .empty) ↔
        ∀ member ∈ group, Agree other member := by
    rw [agree_foldl distinct inner, and_iff_right agree_empty]
  rw [List.pairwise_cons (a := map), List.pairwise_cons (a := map.union _), List.pairwise_append,
    List.forall_mem_append]
  constructor
  · rintro ⟨inner, agree, outer, later⟩
    have both (other : FilterMap) (member : other ∈ rest) :=
      (agree_union whole agree).mp (outer other member).symm
    refine ⟨⟨(each inner map).mp agree, fun other member => (both other member).1.symm⟩,
      (List.pairwise_cons.mp inner).2, later, fun first inside other member => ?_⟩
    exact ((each inner other).mp (both other member).2 first inside).symm
  · rintro ⟨⟨ahead, behind⟩, alike, later, across⟩
    have inner : (.empty :: group).Pairwise Agree :=
      List.pairwise_cons.mpr ⟨fun member _ => agree_empty.symm, alike⟩
    have agree := (each inner map).mpr ahead
    refine ⟨inner, agree, fun other member => ?_, later⟩
    refine ((agree_union whole agree).mpr ⟨(behind other member).symm, ?_⟩).symm
    exact (each inner other).mpr fun first inside => (across first inside other member).symm

/-- Merging a sound map leaves no notice exactly where it agrees with the map it is merged into. -/
theorem gives_merge_sound (map : FilterMap) {source : FilterMap} (sound : Sound source) :
    ∃ notices, (merge map source).Gives (map.union source) notices ∧ Collisions notices ∧
      (notices = [] ↔ Agree map source) := by
  obtain ⟨notices, merged, collisions, silent⟩ := gives_merge map source
  -- Keys are distinct, so that entries and looked-up values are the same thing.
  refine ⟨notices, merged, collisions, (silent sound.distinct).trans ⟨?_, ?_⟩⟩
  · intro same key value value' found found'
    have member := OrderedMap.mem_of_get? found'
    exact (Parameter.same_iff_sense (sound.sensible _ member)).mp (same _ member value found)
  · intro agree entry member old found
    refine (Parameter.same_iff_sense (sound.sensible entry member)).mpr ?_
    exact agree entry.1 old entry.2 found (sound.distinct.get?_of_mem member)

end Agreement

/-- The parameters that a condition sets by itself; one that is refused sets none. -/
def parametersOf (condition : Condition) : FilterMap :=
  match convert condition .empty with
  | .ok (map, _) => map
  | .error _ => .empty

/-- A condition that is not refused: it gives its parameters and its notices wherever it stands. -/
def Accepted (condition : Condition) : Prop :=
  (convert condition).Gives (parametersOf condition) (convert condition).noticesOf

/-- A condition that was converted once is accepted. -/
theorem accepted_of_run {condition : Condition} {map : FilterMap} {context after : Context}
    (ran : convert condition context = .ok (map, after)) : Accepted condition := by
  -- What a conversion does to a context it does to any.
  obtain ⟨notices, -, gives, -⟩ := (holds_convert closed_sound condition).of_run ran
  have parameters : parametersOf condition = map := by
    rw [parametersOf, gives .empty]
  rw [Accepted, parameters, gives.noticesOf]
  exact gives

/-- What an accepted condition sets is sound. -/
theorem Accepted.sound {condition : Condition} (accepted : Accepted condition) :
    Sound (parametersOf condition) :=
  (holds_convert closed_sound condition).of_gives accepted

mutual

/-- Where a condition was converted, all conditions that it joins are accepted. -/
theorem accepted_conjuncts : (condition : Condition) → {map : FilterMap} →
    {context after : Context} → convert condition context = .ok (map, after) →
    ∀ node ∈ condition.conjuncts, Accepted node
  | .all conditions, _, _, _, ran => accepted_conjunctsOf conditions ran
  | .leaf _ _ _, _, _, _, ran | .any _, _, _, _, ran | .not _, _, _, _, ran =>
    List.forall_mem_singleton.mpr (accepted_of_run ran)
termination_by structural condition => condition

/-- Where conditions were converted, all conditions that they join are accepted. -/
theorem accepted_conjunctsOf : (conditions : List Condition) → {map start : FilterMap} →
    {context after : Context} → convertInto start conditions context = .ok (map, after) →
    ∀ node ∈ Condition.conjunctsOf conditions, Accepted node
  | [], _, _, _, _, _ => List.forall_mem_nil _
  | condition :: rest, _, _, _, _, ran => by
    -- The first was converted, its map was merged, and then the others were converted.
    obtain ⟨source, _, converted, ran⟩ := Compile.ok_of_bind ran
    obtain ⟨merged, _, -, ran⟩ := Compile.ok_of_bind ran
    exact List.forall_mem_append.mpr
      ⟨accepted_conjuncts condition converted, accepted_conjunctsOf rest ran⟩
termination_by structural conditions => conditions

end

/-- The parameters of conditions, joined in turn to those of a map. -/
def joined (start : FilterMap) (nodes : List Condition) : FilterMap :=
  (nodes.map parametersOf).foldl OrderedMap.union start

/-- What accepted conditions set has distinct keys. -/
theorem distinct_of_accepted {nodes : List Condition} (accepted : ∀ node ∈ nodes, Accepted node) :
    ∀ map ∈ nodes.map parametersOf, map.Distinct := by
  intro map member
  obtain ⟨node, inside, rfl⟩ := List.mem_map.mp member
  exact (accepted node inside).sound.distinct

/-- The notices that conditions leave one by one. -/
def ownNotices (nodes : List Condition) : List Notice :=
  nodes.flatMap fun node => (convert node).noticesOf

/-- What accepted conditions are joined to is sound. -/
theorem sound_joined {start : FilterMap} (sound : Sound start) {nodes : List Condition}
    (accepted : ∀ node ∈ nodes, Accepted node) : Sound (joined start nodes) := by
  -- By induction on the nodes, each of which brings a sound map.
  induction nodes generalizing start with
  | nil => exact sound
  | cons node rest ih =>
    obtain ⟨first, others⟩ := List.forall_mem_cons.mp accepted
    exact ih (closed_sound.union sound first.sound) others

/--
A compilation that merges conditions into a map. It gives their parameters joined to the map, and
their notices together with some about collisions, of which there are none exactly when the map and
the parameters of the conditions agree in pairs.
-/
def Merges (compile : Compile FilterMap) (start : FilterMap) (nodes : List Condition) : Prop :=
  ∃ notices collided, compile.Gives (joined start nodes) notices ∧
    notices.Perm (ownNotices nodes ++ collided) ∧ Collisions collided ∧
      (collided = [] ↔ (start :: nodes.map parametersOf).Pairwise Agree)

/-- A condition that joins no others is merged into nothing without a collision. -/
theorem Merges.alone {condition : Condition} (accepted : Accepted condition) :
    Merges (convert condition) .empty [condition] := by
  have same : joined .empty [condition] = parametersOf condition :=
    OrderedMap.empty_union accepted.sound.distinct
  refine ⟨(convert condition).noticesOf, [], ?_, ?_, List.forall_mem_nil _, iff_of_true rfl ?_⟩
  · rw [same]
    exact accepted
  · simp [ownNotices]
  · -- There is nothing that its parameters could differ from.
    exact List.pairwise_pair.mpr fun _ _ _ none_ => nomatch none_

/-- A merge of what a condition joins, and then of others, is a merge of all of them in turn. -/
theorem Merges.cons {condition : Condition} {rest : List Condition} {start : FilterMap}
    {nodes nodes' : List Condition} (accepted : ∀ node ∈ nodes, Accepted node)
    (first : Merges (convert condition) .empty nodes)
    (then_ : Merges (convertInto (start.union (joined .empty nodes)) rest)
      (start.union (joined .empty nodes)) nodes') :
    Merges (convertInto start (condition :: rest)) start (nodes ++ nodes') := by
  obtain ⟨notices, collided, gives, listed, collisions, silent⟩ := first
  obtain ⟨notices', collided', gives', listed', collisions', silent'⟩ := then_
  have sound := sound_joined (closed_sound.atMostOne .none) accepted
  obtain ⟨met, merged, meets, quiet⟩ := gives_merge_sound start sound
  refine ⟨notices ++ (met ++ notices'), collided ++ (met ++ collided'), ?_, ?_, ?_, ?_⟩
  · -- Joining the first conditions to nothing, and that to the map, joins them to the map.
    have same : joined start (nodes ++ nodes') =
        joined (start.union (joined .empty nodes)) nodes' := by
      simp only [joined, List.map_append, List.foldl_append]
      rw [OrderedMap.union_foldl start .empty List.Pairwise.nil]
      rfl
    rw [same]
    exact gives.bind (merged.bind gives')
  · -- The collisions of the first conditions change places with the notices of the others.
    calc notices ++ (met ++ notices')
        ~ (ownNotices nodes ++ collided) ++ (met ++ (ownNotices nodes' ++ collided')) :=
          listed.append (listed'.append_left met)
      _ = ownNotices nodes ++ ((collided ++ met) ++ ownNotices nodes') ++ collided' := by
          simp only [List.append_assoc]
      _ ~ ownNotices nodes ++ (ownNotices nodes' ++ (collided ++ met)) ++ collided' :=
          (List.perm_append_comm.append_left _).append_right _
      _ = ownNotices (nodes ++ nodes') ++ (collided ++ (met ++ collided')) := by
          simp only [ownNotices, List.flatMap_append, List.append_assoc]
  · simp only [Collisions, List.forall_mem_append]
    exact ⟨collisions, meets, collisions'⟩
  · -- Three steps can collide: within the first ones, with the map, and behind.
    rw [List.append_eq_nil_iff, List.append_eq_nil_iff, silent, quiet, silent', List.map_append]
    exact pairwise_agree_append (distinct_of_accepted accepted)

mutual

/-- Converting a condition merges the conditions that it joins. -/
theorem merges_convert : (condition : Condition) →
    (∀ node ∈ condition.conjuncts, Accepted node) →
    Merges (convert condition) .empty condition.conjuncts
  | .all conditions, accepted => merges_convertInto .empty conditions accepted
  | .leaf _ _ _, accepted | .any _, accepted | .not _, accepted =>
    .alone (accepted _ (List.mem_singleton_self _))
termination_by structural condition => condition

/-- Converting conditions merges the conditions that they join into a map. -/
theorem merges_convertInto (start : FilterMap) : (conditions : List Condition) →
    (∀ node ∈ Condition.conjunctsOf conditions, Accepted node) →
    Merges (convertInto start conditions) start (Condition.conjunctsOf conditions)
  -- By induction on the conditions; a conjunction among them is spread into its own.
  | [], _ => ⟨[], [], Compile.gives_pure start, List.Perm.nil, List.forall_mem_nil _,
    iff_of_true rfl (List.pairwise_singleton _ _)⟩
  | condition :: rest, accepted => by
    obtain ⟨here, behind⟩ := List.forall_mem_append.mp accepted
    exact .cons here (merges_convert condition here) (merges_convertInto _ rest behind)
termination_by structural conditions => conditions

end

section Conjuncts

variable {nodes : List Condition} (accepted : ∀ node ∈ nodes, Accepted node)
include accepted

/-- The last of the joined conditions that sets a key gives it its value. -/
theorem get?_joined (start : FilterMap) (key : String) :
    (joined start nodes).get? key =
      (nodes.reverse.findSome? fun node => (parametersOf node).get? key).or (start.get? key) := by
  rw [joined, OrderedMap.get?_foldl_union start (distinct_of_accepted accepted), ← List.map_reverse,
    List.findSome?_map]
  rfl

/-- No condition sets the key of the content type, so that all agree with the map for it. -/
theorem agree_startOf (query : Query) {node : Condition} (member : node ∈ nodes) :
    Agree (startOf query) (parametersOf node) := by
  intro key value value' found found'
  have filters := (ensures_filters node).of_gives (accepted node member)
  have opens : key = "content_type" := key_of_startOf (OrderedMap.mem_of_get? found)
  -- The content type is neither in a section nor the key for links.
  have named : IsFilterKey key := filters _ (OrderedMap.mem_of_get? found')
  exact absurd named (by simp [opens, IsFilterKey])

/-- Conditions that are merged behind a content type agree in pairs unless two of them conflict. -/
theorem pairwise_agree_iff (query : Query) :
    (startOf query :: nodes.map parametersOf).Pairwise Agree ↔
      ¬ ∃ first second, [first, second] <+ nodes ∧
        Conflict (parametersOf first) (parametersOf second) := by
  have start : ∀ map ∈ nodes.map parametersOf, Agree (startOf query) map := by
    intro map member
    obtain ⟨node, inside, rfl⟩ := List.mem_map.mp member
    exact agree_startOf accepted query inside
  -- What is left are the pairs of conditions, in their order.
  rw [List.pairwise_cons, and_iff_right start, List.pairwise_map,
    List.pairwise_iff_forall_sublist]
  constructor
  · rintro agree ⟨first, second, both, conflict⟩
    have sound := (accepted second (both.subset (by simp))).sound
    exact (agree_iff sound).mp (agree both) conflict
  · intro none_ first second both
    have sound := (accepted second (both.subset (by simp))).sound
    exact (agree_iff sound).mpr fun conflict => none_ ⟨first, second, both, conflict⟩

end Conjuncts

section Compiled

variable {settings : Settings} {everyLocale : Value} {query : Query} {own : List Condition}

/--
The parts of which a query is compiled: a notice about its types, the conditions merged into a map,
and what is beside the filter.
-/
structure CompiledFrom (settings : Settings) (everyLocale : Value) (query : Query)
    (own : List Condition) (compiled : Request) (typed merged beside : List Notice) : Prop where
  types : (noteTypes query).Gives () typed
  filter : (convertInto (startOf query) (own ++ settings.globalFilter.conditionList)).Gives
    compiled.query merged
  rest : ∃ bound, ∀ noted, finish settings everyLocale query compiled.query ⟨[], noted⟩ =
    .ok ((compiled.query, compiled.parameters), ⟨bound, noted ++ beside⟩)
  notices : compiled.notices = typed ++ merged ++ beside
  writable : compiled.query.entries.all (·.2.isWritable) = true
  lenient : (settings.strict.isTruthy && !compiled.notices.isEmpty) = false

/-- A compiled query was compiled from these parts. -/
theorem parts_of_compiled {compiled : Request}
    (ran : compile settings everyLocale query own = .ok compiled) :
    ∃ typed merged beside,
      CompiledFrom settings everyLocale query own compiled typed merged beside ∧
        (∀ notice ∈ typed, notice.reason = .multiType) ∧
          ∀ notice ∈ beside, notice.reason ∈ besideReasons := by
  obtain ⟨ran, writable⟩ := run_of_compile ran
  obtain ⟨_, -, listed, lenient⟩ := Compiled.ok_of_run ran
  rw [← listed] at lenient
  rw [convertQuery_eq, filterOf_eq] at ran
  -- The notice about types comes first, then those about conditions, and the others behind.
  obtain ⟨filter, after, beside, converted, same, noted, bound, rest⟩ := Compiled.of_run
    (fun filter result _ => result = filter) ran
    fun filter => (steady_finish settings everyLocale query filter).mono fun _ => And.left
  obtain ⟨_, between, first, second⟩ := Compile.ok_of_bind converted
  obtain ⟨typed, rfl, types, multi⟩ := (ensures_noteTypes query).of_run first
  obtain ⟨merged, rfl, gives, -⟩ :=
    (holds_convertInto closed_sound _ (sound_startOf query)).of_run second
  subst same
  refine ⟨typed, merged, beside, ⟨types, gives, ⟨bound, rest⟩, ?_, writable, lenient⟩, multi, ?_⟩
  · simpa [Context.extend, Context.empty] using noted
  · obtain ⟨given, same, reasons⟩ := notesOnly_finish _ _ _ _ _ _ _ (rest [])
    obtain rfl : beside = given := same
    exact reasons

/-- What is made of these parts is what the query is compiled to. -/
theorem CompiledFrom.compiles {compiled : Request} {typed merged beside : List Notice}
    (parts : CompiledFrom settings everyLocale query own compiled typed merged beside) :
    compile settings everyLocale query own = .ok compiled := by
  -- The parts are run one after another, from no notices at all.
  obtain ⟨bound, rest⟩ := parts.rest
  have gave : (filterOf settings query own >>= finish settings everyLocale query) .empty =
      .ok ((compiled.query, compiled.parameters), ⟨bound, compiled.notices⟩) := by
    have filtered : (filterOf settings query own).Gives compiled.query (typed ++ merged) := by
      rw [filterOf_eq]
      exact parts.types.bind parts.filter
    rw [Compile.bind_apply, filtered .empty, parts.notices]
    exact rest (typed ++ merged)
  refine compile_of_run ?_ parts.writable
  rw [convertQuery_eq]
  exact Compiled.run_of_ok gave parts.lenient

/-- A merge leaves no notice exactly where its conditions leave none and do not collide. -/
theorem eq_nil_of_perm {notices own collided : List Notice} (listed : notices ~ own ++ collided) :
    notices = [] ↔ own = [] ∧ collided = [] := by
  rw [← List.perm_nil, listed.congr_left, List.perm_nil, List.append_eq_nil_iff]

/-- Conditions that join the same ones are compiled to the same parameters. -/
theorem CompiledFrom.regrouped {compiled : Request} {typed merged beside : List Notice}
    (parts : CompiledFrom settings everyLocale query own compiled typed merged beside)
    {globals : GlobalFilter} {own' : List Condition} (filter : List Value)
    (same : Condition.conjunctsOf (own' ++ globals.conditionList) =
      Condition.conjunctsOf (own ++ settings.globalFilter.conditionList)) :
    ∃ compiled', compile { settings with globalFilter := globals } everyLocale
        { query with filter } own' = .ok compiled' ∧
      compiled'.query = compiled.query ∧ compiled'.parameters = compiled.parameters := by
  have accepted := accepted_conjunctsOf _ (parts.filter .empty)
  obtain ⟨merged₁, collided₁, gives₁, listed₁, -, silent₁⟩ :=
    merges_convertInto (startOf query) _ accepted
  rw [← same] at accepted
  obtain ⟨merged₂, collided₂, gives₂, listed₂, -, silent₂⟩ :=
    merges_convertInto (startOf query) _ accepted
  -- Both runs are described by the same conditions from here on.
  rw [same] at gives₂ listed₂ silent₂
  -- The given run is the first of the two, and the second has the same result.
  obtain ⟨joins, rfl⟩ := gives₁.unique parts.filter
  rw [joins] at gives₂
  -- A strict compiler refuses neither or both, since both runs are silent together.
  have silent : merged₁ = [] ↔ merged₂ = [] := by
    rw [eq_nil_of_perm listed₁, eq_nil_of_perm listed₂, silent₁, silent₂]
  have lenient : (settings.strict.isTruthy && !(typed ++ merged₂ ++ beside).isEmpty) = false := by
    have quiet : (typed ++ merged₂ ++ beside).isEmpty = compiled.notices.isEmpty := by
      rw [parts.notices, Bool.eq_iff_iff]
      simp only [List.isEmpty_iff, List.append_eq_nil_iff, silent]
    rw [quiet]
    exact parts.lenient
  have parts' : CompiledFrom { settings with globalFilter := globals } everyLocale
      { query with filter } own'
      ⟨compiled.query, compiled.parameters, typed ++ merged₂ ++ beside⟩ typed merged₂ beside :=
    ⟨parts.types, gives₂, parts.rest, rfl, parts.writable, lenient⟩
  exact ⟨_, parts'.compiles, rfl, rfl⟩

/--
The conditions of a compiled query are merged like those that they join. Every key of the filter has
the value that the last of these sets it to, or else is that of the content type. The notices are
those of these conditions one by one, some about collisions, and others about something else; there
are some about collisions exactly when two of these conditions set a key to different values. A
query and a compiler whose conditions join the same ones lead to the same parameters.
-/
theorem conjunctions_merge_in_any_grouping {compiled : Request} {nodes : List Condition}
    (built : (Compiler.contentful settings everyLocale).compileQuery query =
      .ok (.request compiled))
    (read : (Compiler.contentful settings everyLocale).conditionsOf query = .ok own)
    (joins : Condition.conjunctsOf (own ++ settings.globalFilter.conditionList) = nodes) :
    (∀ node ∈ nodes, Accepted node) ∧
      (∀ key, compiled.query.get? key =
        (nodes.reverse.findSome? fun node => (parametersOf node).get? key).or
          ((startOf query).get? key)) ∧
      (∃ collided others, compiled.notices ~ ownNotices nodes ++ collided ++ others ∧
        Collisions collided ∧ (∀ notice ∈ others, notice.reason ≠ .keyCollision) ∧
          (collided ≠ [] ↔ ∃ first second, [first, second] <+ nodes ∧
            Conflict (parametersOf first) (parametersOf second))) ∧
      ∀ (globals : GlobalFilter) (filter : List Value) (own' : List Condition),
        (Compiler.contentful { settings with globalFilter := globals } everyLocale).conditionsOf
            { query with filter } = .ok own' →
          Condition.conjunctsOf (own' ++ globals.conditionList) = nodes →
            ∃ compiled',
              (Compiler.contentful { settings with globalFilter := globals }
                everyLocale).compileQuery { query with filter } = .ok (.request compiled') ∧
                compiled'.query = compiled.query ∧ compiled'.parameters = compiled.parameters := by
  subst joins
  obtain ⟨own', read', converted⟩ := Compiler.conditions_of_compileQuery built
  obtain rfl : own' = own := Except.ok.inj (read'.symm.trans read)
  obtain ⟨typed, merged, beside, parts, multi, reasons⟩ :=
    parts_of_compiled (request_of_output converted)
  -- The merge is described by its conditions, and it is the one that was run.
  have accepted := accepted_conjunctsOf _ (parts.filter .empty)
  obtain ⟨notices, collided, gives, listed, collisions, silent⟩ :=
    merges_convertInto (startOf query) _ accepted
  obtain ⟨same, rfl⟩ := gives.unique parts.filter
  refine ⟨accepted, fun key => ?_, ⟨collided, typed ++ beside, ?_, collisions, ?_, ?_⟩, ?_⟩
  · rw [← same]
    exact get?_joined accepted (startOf query) key
  · -- The notice about types stands in front, and is counted among the others.
    rw [parts.notices, ← List.append_assoc _ typed]
    exact (List.perm_append_comm.trans (listed.append_right typed)).append_right beside
  · refine List.forall_mem_append.mpr ⟨fun notice member => ?_, fun notice member => ?_⟩
    · rw [multi notice member]
      decide
    · intro collision
      exact absurd (collision ▸ reasons notice member) (by decide)
  · rw [Ne, silent, pairwise_agree_iff accepted, Classical.not_not]
  · intro globals filter own'' read'' joins
    obtain ⟨compiled', ran, alike⟩ := parts.regrouped filter joins
    refine ⟨compiled', ?_, alike⟩
    rw [Compiler.compileQuery_eq, read'']
    exact congrArg (Except.map Output.request) ran

/-- A compiler that adds a conjunction to every query. -/
def sitedSettings : Settings :=
  { Settings.standard with
    globalFilter := .conditions [] [.all [.leaf (.text "site") (.known .equal) (.text "main")]] }

/-- A query for entries of a level that have a slug, and of another level. -/
def twoLevels : Query :=
  { Query.everything with
    filter := [
      .node .null .null .null
        (.list [.leaf (.text "level") (.text "==") (.int 1),
          .leaf (.text "slug") (.text "defined") .null]) .null .null,
      .leaf (.text "level") (.text "==") (.int 2)] }

/-- The same query with its conditions and that of the compiler in other groups. -/
def twoLevelsRegrouped : Query :=
  { twoLevels with
    filter := [
      .leaf (.text "level") (.text "==") (.int 1),
      .node .null .null .null
        (.list [.leaf (.text "slug") (.text "defined") .null,
          .leaf (.text "level") (.text "==") (.int 2),
          .leaf (.text "site") (.text "==") (.text "main")]) .null .null] }

/-- Grouped in another way, the two levels still collide, and the second one is kept. -/
theorem conjunctions_merge_in_any_grouping_levels :
    ∃ compiled compiled',
      (Compiler.contentful sitedSettings .null).compileQuery twoLevels =
          .ok (.request compiled) ∧
        (Compiler.contentful Settings.standard .null).compileQuery twoLevelsRegrouped =
          .ok (.request compiled') ∧
        compiled'.query = compiled.query ∧
          compiled.query.get? "fields.level" = some (.int 2) ∧
            ∃ notice ∈ compiled.notices, notice.reason = .keyCollision := by
  obtain ⟨compiled, built⟩ : ∃ compiled,
      (Compiler.contentful sitedSettings .null).compileQuery twoLevels =
        .ok (.request compiled) := ⟨_, rfl⟩
  obtain ⟨-, last, ⟨collided, others, listed, collisions, -, silent⟩, regrouped⟩ :=
    conjunctions_merge_in_any_grouping built rfl rfl
  -- The conjunction behind the first level takes in the condition of the compiler as well.
  have joins := Condition.conjunctsOf_group [.leaf (.text "level") (.known .equal) (.int 1)]
    [.leaf (.text "slug") (.known .defined) .null, .leaf (.text "level") (.known .equal) (.int 2),
      .leaf (.text "site") (.known .equal) (.text "main")] []
  obtain ⟨compiled', built', same, -⟩ :=
    regrouped (.conditions [] []) twoLevelsRegrouped.filter _ rfl joins
  refine ⟨compiled, compiled', built, built', same, (last "fields.level").trans rfl, ?_⟩
  -- The first condition and the third set the level to different values.
  have some_ : collided ≠ [] := by
    refine silent.mpr ⟨.leaf (.text "level") (.known .equal) (.int 1),
      .leaf (.text "level") (.known .equal) (.int 2), ?_, "fields.level", .int 1, .int 2,
      rfl, rfl, rfl⟩
    exact (List.Sublist.slnil.cons _).cons_cons _ |>.cons _ |>.cons_cons _
  obtain ⟨notice, member⟩ := List.exists_mem_of_ne_nil collided some_
  refine ⟨notice, listed.symm.subset ?_, collisions notice member⟩
  exact List.mem_append_left _ (List.mem_append_right _ member)

end Compiled

end Contentful

end ContentQuery
