import ContentQuery.Proofs.ProjectionNames
import ContentQuery.Proofs.Qdrant.Pruning
import ContentQuery.Proofs.Reasons

/-! What the options of a scroll say about its payload and the depth of references. -/

namespace ContentQuery.Qdrant

open Compile (Yields NotesOnly)
open Projection (areNamed exists_of_isTextThat)

section Keys

/-- Whether a key leads into what another one holds. -/
def IsDotted (key : String) : Prop :=
  '.' ∈ key.toList

/-- What is joined behind a dotted key is dotted. -/
theorem IsDotted.append {above : String} (dotted : IsDotted above) (name : String) :
    IsDotted (above ++ name) := by
  rw [IsDotted, String.toList_append]
  exact List.mem_append_left _ dotted

/-- No field at the root leads into another. -/
theorem ne_root_of_isDotted {key field : String} (dotted : IsDotted key)
    (root : field ∈ rootFields) : key ≠ field := by
  rintro rfl
  -- There are three, and none of them has a dot.
  have none_ : ∀ field ∈ rootFields, '.' ∉ field.toList := by decide
  exact none_ key root dotted

/-- A field at the root is its own key, and no other path has it for a key. -/
theorem fieldKey_eq_root {payloadPrefix : Value} {path field : String}
    (root : field ∈ rootFields) : fieldKey payloadPrefix path = field ↔ path = field := by
  constructor
  · intro same
    unfold fieldKey at same
    split at same
    · exact same
    · -- What stands behind a prefix is dotted.
      exact absurd same (ne_root_of_isDotted (by simp [IsDotted]) root)
  · rintro rfl
    -- A field at the root stays there, whatever the prefix of the others is.
    have own : ∀ field ∈ rootFields, rootFields.contains (rootName field) = true := by decide
    rw [fieldKey, own path root, Bool.or_true]
    rfl

end Keys

/-- The reasons for which a field of a projection is not selected as it was asked for. -/
def payloadReasons : List Reason :=
  [.invalidField, .unsupportedAlias, .unsupportedComputed]

/-- What collecting adds to the excluded keys of fields at the root, and the notices it leaves. -/
structure Collects (lists extended : KeyLists) (adds : String → Prop) (given : List Notice) :
    Prop where
  excluded : ∀ field ∈ rootFields, field ∈ extended.excluded ↔ field ∈ lists.excluded ∨ adds field
  listed : ∀ notice ∈ given, notice.reason ∈ payloadReasons

namespace Collects

variable {lists between extended : KeyLists} {adds adds' : String → Prop}
  {first second given : List Notice}

/-- Where no key is excluded, none is added. -/
theorem same (kept : extended.excluded = lists.excluded)
    (listed : ∀ notice ∈ given, notice.reason ∈ payloadReasons) :
    Collects lists extended (fun _ => False) given :=
  ⟨fun field _ => by rw [kept, or_false], listed⟩

/-- What is added in turn is added together. -/
theorem trans (collects : Collects lists between adds first)
    (collects' : Collects between extended adds' second) :
    Collects lists extended (fun field => adds field ∨ adds' field) (first ++ second) where
  excluded field root := by
    rw [collects'.excluded field root, collects.excluded field root, or_assoc]
  listed := List.forall_mem_append.mpr ⟨collects.listed, collects'.listed⟩

/-- What is added may be put in other words. -/
theorem congr (collects : Collects lists extended adds given)
    (same : ∀ field ∈ rootFields, adds field ↔ adds' field) :
    Collects lists extended adds' given :=
  ⟨fun field root => (collects.excluded field root).trans (or_congr_right (same field root)),
    collects.listed⟩

end Collects

/-- A field that is dropped is excluded no more than it is included. -/
theorem yields_dropPath {reason : Reason} (listed : reason ∈ payloadReasons)
    (message path : String) (lists : KeyLists) :
    Yields (do dropPath reason message path; return lists) fun extended given =>
      Collects lists extended (fun _ => False) given :=
  .noted (.pure (.same rfl (List.forall_mem_singleton.mpr listed)))

/-- An included key is not excluded. -/
theorem yields_addIncluded (payloadPrefix : Value) (path : String) (lists : KeyLists) :
    (addIncluded payloadPrefix path lists).Yields fun extended given =>
      Collects lists extended (fun _ => False) given := by
  unfold addIncluded
  split
  · exact .pure (.same rfl (List.forall_mem_nil _))
  · exact yields_dropPath (by decide) _ path lists

/-- An excluded path excludes a field at the root where it is that field. -/
theorem collects_excluded (payloadPrefix : Value) (path : String) (lists : KeyLists) :
    Collects lists
      { lists with excluded := lists.excluded ++ [fieldKey payloadPrefix path] }
      (fun field => path = field) [] where
  excluded field root := by
    rw [List.mem_append, List.mem_singleton, eq_comm (a := field), fieldKey_eq_root root]
  listed := List.forall_mem_nil _

/-- A field at the root is a payload key. -/
theorem isPath_root : ∀ field ∈ rootFields, pathGrammar.isPath field = true := by
  decide

mutual

/-- Below a field, nothing at the root is excluded. -/
theorem yields_collect_below (payloadPrefix : Value) : (item : Projection) → (above : String) →
    IsDotted above → (lists : KeyLists) →
      (collect payloadPrefix above lists item).Yields fun extended given =>
        Collects lists extended (fun _ => False) given
  | .alias _ _, _, _, lists => yields_dropPath (by decide) _ _ lists
  | .computed _ _ _, _, _, lists => yields_dropPath (by decide) _ _ lists
  | .nested name fields, above, dotted, lists => by
    have inside := yields_collectAll_below payloadPrefix fields (above ++ name.display ++ ".")
      ((dotted.append _).append _) lists
    unfold collect
    dsimp only
    split
    · exact inside
    · exact yields_dropPath (by decide) _ _ lists
  | .excluded name, above, dotted, lists => by
    unfold collect
    dsimp only
    split
    · refine .pure ((collects_excluded payloadPrefix _ lists).congr fun field root => ?_)
      -- The key of what stands below a field is dotted.
      exact iff_of_false (ne_root_of_isDotted (dotted.append _) root) id
    · exact yields_dropPath (by decide) _ _ lists
  | .included _, _, _, lists => yields_addIncluded payloadPrefix _ lists
  | .resolved _, _, _, lists => yields_addIncluded payloadPrefix _ lists
  | .expanded _ _, _, _, lists => yields_addIncluded payloadPrefix _ lists
  | .stray _, _, _, _ => .refuse
termination_by structural item => item

/-- So it is for several projections. -/
theorem yields_collectAll_below (payloadPrefix : Value) : (items : List Projection) →
    (above : String) → IsDotted above → (lists : KeyLists) →
      (collectAll payloadPrefix above lists items).Yields fun extended given =>
        Collects lists extended (fun _ => False) given
  -- By induction on the items: below a field no key of a root is excluded.
  | [], _, _, _ => .pure (.same rfl (List.forall_mem_nil _))
  | item :: rest, above, dotted, lists =>
    .written (.bind (yields_collect_below payloadPrefix item above dotted lists)
      fun extended _ here =>
        (yields_collectAll_below payloadPrefix rest above dotted extended).mono fun _ _ later =>
          (here.trans later).congr fun _ _ => or_self_iff)
termination_by structural items => items

end

/-- At the top, a field at the root is excluded where the projection is its exclusion. -/
theorem yields_collect_top (payloadPrefix : Value) {accepts : String → Bool} (lists : KeyLists)
    (item : Projection) (named : item.isNamed accepts = true) :
    (collect payloadPrefix "" lists item).Yields fun extended given =>
      Collects lists extended (fun field => item = .excluded (.text field)) given := by
  -- All other kinds of projections add nothing, and are no exclusion either.
  have unlike (other : ∀ field, item ≠ .excluded (.text field))
      (yields : (collect payloadPrefix "" lists item).Yields fun extended given =>
        Collects lists extended (fun _ => False) given) :
      (collect payloadPrefix "" lists item).Yields fun extended given =>
        Collects lists extended (fun field => item = .excluded (.text field)) given :=
    yields.mono fun _ _ collects => collects.congr fun field _ => iff_of_false id (other field)
  match item, named with
  | .alias name path, _ => exact unlike nofun (yields_dropPath (by decide) _ _ lists)
  | .computed name function arguments, _ =>
    exact unlike nofun (yields_dropPath (by decide) _ _ lists)
  | .included name, _ => exact unlike nofun (yields_addIncluded payloadPrefix _ lists)
  | .resolved name, _ => exact unlike nofun (yields_addIncluded payloadPrefix _ lists)
  | .expanded name fields, _ => exact unlike nofun (yields_addIncluded payloadPrefix _ lists)
  | .nested name fields, _ =>
    refine unlike nofun ?_
    have inside := yields_collectAll_below payloadPrefix fields ("" ++ name.display ++ ".")
      (by simp [IsDotted]) lists
    unfold collect
    dsimp only
    split
    · exact inside
    · exact yields_dropPath (by decide) _ _ lists
  | .excluded name, named =>
    obtain ⟨words, rfl, -⟩ := exists_of_isTextThat named
    -- At the top, the path of a field is its name.
    have alike (field : String) : "" ++ (Value.text words).display = field ↔
        Projection.excluded (.text words) = .excluded (.text field) := by
      rw [String.empty_append]
      exact ⟨fun same => congrArg (fun name => Projection.excluded (.text name)) same,
        fun same => Value.text.inj (Projection.excluded.inj same)⟩
    unfold collect
    dsimp only
    split
    · exact .pure ((collects_excluded payloadPrefix _ lists).congr fun field _ => alike field)
    · -- What is no payload key is none of the fields at the root.
      rename_i invalid
      refine (yields_dropPath (by decide) _ _ lists).mono fun _ _ collects =>
        collects.congr fun field root => iff_of_false id fun there => invalid ?_
      rw [(alike field).mpr there]
      exact isPath_root field root

/-- At the top, the fields at the root are excluded whose exclusions are there. -/
theorem yields_collectAll_top (payloadPrefix : Value) {accepts : String → Bool}
    {items : List Projection} (named : areNamed accepts items = true) (lists : KeyLists) :
    (collectAll payloadPrefix "" lists items).Yields fun extended given =>
      Collects lists extended (fun field => .excluded (.text field) ∈ items) given := by
  -- By induction on the items, of which each excludes its own name at most.
  induction items generalizing lists with
  | nil =>
    have kept : Collects lists lists (fun _ => False) [] := .same rfl (List.forall_mem_nil _)
    exact .pure (kept.congr fun _ _ => iff_of_false id List.not_mem_nil)
  | cons item rest ih =>
    obtain ⟨here, later⟩ := Bool.and_eq_true_iff.mp named
    refine .written (.bind (yields_collect_top payloadPrefix lists item here)
      fun between _ collects => (ih later between).mono fun _ _ collects' =>
        (collects.trans collects').congr fun field _ => ?_)
    rw [List.mem_cons, eq_comm]

/-- Whether a selector keeps a payload key from being delivered. -/
def Argument.Withholds (key : String) : Argument → Prop
  | .including keys => key ∉ keys
  | .excluding keys => key ∈ keys
  | .value given => given ≠ .bool true
  | .order _ _ => True

/-- Whether a selector names the keys that are not delivered. -/
def Argument.IsExcluding : Argument → Prop
  | .excluding _ => True
  | _ => False

/-- Keys that are joined to others take none of these away. -/
theorem mem_foldl_included {keys start : List String} {field : String} (there : field ∈ start) :
    field ∈ keys.foldl
      (fun keys key => if keys.contains key then keys else keys ++ [key]) start := by
  -- Each key is joined at the end, or not at all where it is there.
  induction keys generalizing start with
  | nil => exact there
  | cons key rest ih =>
    refine ih ?_
    dsimp only
    split
    · exact there
    · exact List.mem_append_left _ there

/-- A selector withholds a field at the root where it is excluded, and no key is included. -/
def Selects (excluded : String → Prop) (selector : Argument) : Prop :=
  ∀ field ∈ rootFields, selector.Withholds field ↔ selector.IsExcluding ∧ excluded field

/-- Where nothing is excluded by name, a selector has to withhold nothing. -/
theorem selects_of_delivered {selector : Argument} {excluded : String → Prop}
    (names : ¬ selector.IsExcluding)
    (delivered : ∀ field ∈ rootFields, ¬ selector.Withholds field) :
    Selects excluded selector :=
  fun field root => iff_of_false (delivered field root) fun excluding => names excluding.1

/-- Choosing between inclusions and exclusions withholds nothing that is not excluded. -/
theorem yields_selectorOf (lists : KeyLists) :
    (selectorOf lists).Yields fun selector given => Selects (· ∈ lists.excluded) selector ∧
      ∀ notice ∈ given, notice.reason ∈ [.unsupportedExclusion] := by
  -- Fields at the root are included before any key that is named.
  have included : Selects (· ∈ lists.excluded) (.including (lists.included.foldl
      (fun keys key => if keys.contains key then keys else keys ++ [key]) rootFields)) :=
    selects_of_delivered id fun field root withheld => withheld (mem_foldl_included root)
  unfold selectorOf
  split
  · dsimp only
    split
    · exact .noted (.pure ⟨included, by simp⟩)
    · exact .pure ⟨included, List.forall_mem_nil _⟩
  · split
    -- Without an inclusion, what is excluded by name is what is withheld.
    · exact .pure ⟨fun field _ => (and_iff_right trivial).symm, List.forall_mem_nil _⟩
    · exact .pure ⟨selects_of_delivered id fun field _ other => other rfl, List.forall_mem_nil _⟩

/-- Choosing an order leaves notices about fields that are no keys, and about further keys. -/
theorem notesOnly_orderOf (payloadPrefix : Value) (found : Option (String × Direction))
    (entries : List Value) :
    (orderOf payloadPrefix found entries).NotesOnly [.invalidField, .multiSort] := by
  -- By induction on the entries; only the first can be sorted by.
  induction entries generalizing found with
  | nil => exact .pure
  | cons entry rest ih =>
    refine .bind .ofExcept fun field => ?_
    split
    · split
      · exact .bind (.degrade (by decide)) fun _ => ih _
      · split
        · exact .bind (.degrade (by decide)) fun _ => ih _
        · exact .bind .ofExcept fun _ => ih _
    · exact .refuse

/-- Choosing a limit leaves a notice about points that should be skipped. -/
theorem notesOnly_limitOf (settings : Settings) (query : Query) :
    (limitOf settings query).NotesOnly [.offsetPagination] := by
  -- There is one notice at most.
  unfold limitOf
  dsimp only
  split
  · exact .bind (.degrade (by decide)) fun _ => .pure
  · exact .pure

/-- Choosing where to go on leaves a notice where there is an order. -/
theorem notesOnly_cursorOf (query : Query) (ordered : Bool) :
    (cursorOf query ordered).NotesOnly [.cursorPagination] := by
  -- There is one notice at most.
  unfold cursorOf
  split
  · exact .pure
  · split
    · exact .bind (.degrade (by decide)) fun _ => .pure
    · exact .pure

/-- The reasons for notices about the options of a scroll, a clamped depth apart. -/
def optionReasons : List Reason :=
  .invalidProjection :: .unsupportedExclusion :: payloadReasons ++
    [.multiSort, .offsetPagination, .cursorPagination, .unsupportedLocale]

section Query

variable {accepts : String → Bool} {configuration : Configuration} {query : Query}
  {fields : List Projection}
  (reads : Projection.ReadsTo configuration.settings.depthLimit query.projection fields)
  (named : areNamed accepts fields = true)
include reads named

/-- The payload is selected by the fields of a projection, and they ask for its expansions. -/
theorem yields_payloadOf : (payloadOf configuration query).Yields fun result given =>
    Selects (fun field => .excluded (.text field) ∈ fields) result.1 ∧
      result.2 = Projection.deepest fields ∧ ∀ notice ∈ given, notice.reason ∈ optionReasons := by
  -- The fields are read, collected into the two lists, and one of the lists makes the selector.
  unfold payloadOf
  split
  · rename_i none_
    obtain rfl := reads.unique (Projection.readsTo_of_isNull none_)
    exact .pure ⟨selects_of_delivered id fun field _ other => other rfl, rfl, List.forall_mem_nil _⟩
  · refine .bind (Projection.yields_readTop _ _) fun fields' first ⟨reads', listed⟩ => ?_
    obtain rfl := reads.unique reads'
    refine .bind (yields_collectAll_top _ named ⟨[], []⟩) fun lists second collects => ?_
    refine .bind (yields_selectorOf lists) fun selector third ⟨selects, listed'⟩ => ?_
    refine .bind (Projection.yields_measure fields) fun levels fourth ⟨deepest, none_⟩ =>
      .pure ⟨?_, deepest, ?_⟩
    · -- No key was excluded before the fields were collected.
      intro field root
      refine (selects field root).trans (and_congr_right' ?_)
      exact (collects.excluded field root).trans (or_iff_right List.not_mem_nil)
    · have within : [.invalidProjection] ⊆ optionReasons ∧ payloadReasons ⊆ optionReasons ∧
          [.unsupportedExclusion] ⊆ optionReasons := by decide
      simp only [none_, List.append_nil, List.forall_mem_append]
      exact ⟨fun notice member => within.1 (listed notice member),
        fun notice member => within.2.1 (collects.listed notice member),
        fun notice member => within.2.2 (listed' notice member)⟩

/-- What the options of a scroll say about its payload and the depth of references. -/
structure OptionsHold (configuration : Configuration) (query : Query) (fields : List Projection)
    (own : OrderedMap Value Argument) (given : List Notice) : Prop where
  selects : ∃ selector, own.get? (.text "with_payload") = some selector ∧
    Selects (fun field => .excluded (.text field) ∈ fields) selector
  /-- A depth of zero is not asked for. -/
  resolves : (own.get? (.text "resolve_depth")).getD (.value (.int 0)) =
    .value (.int (min (max query.resolve.levelCount.toNat (Projection.deepest fields))
      configuration.settings.maxResolveDepth : Nat))
  cut : Mentions .resolveDepthClamped given ↔ configuration.settings.maxResolveDepth <
    max query.resolve.levelCount.toNat (Projection.deepest fields)

/-- The options of a scroll are those of the payload, the depth and the other parts. -/
theorem yields_optionsOf :
    (optionsOf configuration query).Yields (OptionsHold configuration query fields) := by
  refine .bind (yields_payloadOf reads named) fun payload first ⟨selects, expansions, listed⟩ => ?_
  refine .bind (notesOnly_orderOf _ _ _) fun order second listed₂ => ?_
  refine .bind (notesOnly_limitOf _ _) fun limit third listed₃ => ?_
  refine .bind (notesOnly_cursorOf _ _) fun cursor fourth listed₄ => ?_
  refine .bind (configuration.settings.yields_resolveWith query _) fun depth fifth
    ⟨granted, cut⟩ => ?_
  rw [expansions] at granted cut
  -- Only the depth may have been clamped, and a notice about locales is no notice about it.
  have others : ¬ Mentions .resolveDepthClamped first ∧ ¬ Mentions .resolveDepthClamped second ∧
      ¬ Mentions .resolveDepthClamped third ∧ ¬ Mentions .resolveDepthClamped fourth :=
    ⟨Mentions.absent listed (by decide), Mentions.absent listed₂ (by decide),
      Mentions.absent listed₃ (by decide), Mentions.absent listed₄ (by decide)⟩
  have held (last : List Notice) (other : ¬ Mentions .resolveDepthClamped last) :
      OptionsHold configuration query fields ⟨
        entry? "with_payload" (some payload.1)
          ++ entry? "order_by" (order.map fun key => .order key.1 key.2)
          ++ entry? "limit" (limit.map fun count => .value (.int count))
          ++ entry? "offset" (cursor.map .value)
          ++ entry? "resolve_depth" (if depth == 0 then none else some (.value (.int depth)))⟩
        (first ++ (second ++ (third ++ (fourth ++ (fifth ++ last))))) := by
    refine ⟨⟨payload.1, ?_, selects⟩, ?_, ?_⟩
    · simp only [List.append_assoc, entry?, Value.get?_optional]
      rfl
    · rw [← granted, ← List.append_nil ( entry? "resolve_depth" _)]
      simp only [List.append_assoc, entry?, Value.get?_optional, String.reduceEq, if_false, if_true]
      cases depth <;> rfl
    · simp only [Mentions.append, others, other, false_or, or_false, cut]
  dsimp only
  split
  · exact .noted (.pure (held [_] (by simp [Mentions])))
  · exact .pure (held [] Mentions.nil)

/-- What follows the filter has these options, and those that are passed through. -/
theorem yields_finish (filter : Option Clause) :
    (finish configuration query filter).Yields fun result given =>
      ∃ own, OptionsHold configuration query fields own given ∧
        result.2 = passed (fun _ => false) .value query.params.entries own := by
  refine .bind (yields_optionsOf reads named) fun own first held => ?_
  have through := (ensures_passThrough (fun _ => false) Argument.value "parameter"
    query.params.entries own).yields.and (notesOnly_passThrough _ _ _ _ _)
  -- Parameters that are passed through are noted for collisions, never for a depth.
  refine .bind through fun parameters second ⟨same, listed⟩ => .pure ⟨own, ?_, same⟩
  have behind : ¬ Mentions .resolveDepthClamped second := Mentions.absent listed (by decide)
  refine { held with cut := ?_ }
  rw [List.append_nil, Mentions.append, or_iff_left behind, held.cut]

/-- The options of a scroll are these, and those that are passed through. -/
theorem options_of_compile {conditions : List Condition} {compiled : Scroll}
    (ran : compile configuration query conditions = .ok compiled) :
    ∃ own, OptionsHold configuration query fields own compiled.notices ∧
      compiled.parameters = passed (fun _ => false) .value query.params.entries own := by
  obtain ⟨last, gave, listed, -⟩ := Compiled.ok_of_run (run_of_compile ran).1
  rw [convertQuery_eq] at gave
  obtain ⟨filter, after, filtered, ended⟩ := Compile.ok_of_bind gave
  -- The notices about the filter are about its failing nodes.
  obtain ⟨lost, rfl, -, noted, -⟩ :=
    (ensures_filterOf_pruned configuration query conditions).of_run filtered
  have unfiltered : ¬ Mentions .resolveDepthClamped lost :=
    Mentions.absent noted.reasons (by decide)
  obtain ⟨given, same, own, held, through⟩ := yields_finish reads named filter _ _ _ ended
  have before : (Context.empty.extend [] lost).notices = lost := rfl
  refine ⟨own, { held with cut := ?_ }, through⟩
  rw [listed, same, before, Mentions.append, or_iff_right unfiltered, held.cut]

end Query

/-- A projection that is there has been read where a query is compiled. -/
theorem reads_of_compile {configuration : Configuration} {query : Query}
    {conditions : List Condition} {compiled : Scroll}
    (ran : compile configuration query conditions = .ok compiled)
    (there : query.projection.isNull = false) :
    ∃ fields, Projection.ReadsTo configuration.settings.depthLimit query.projection fields := by
  obtain ⟨last, gave, -⟩ := Compiled.ok_of_run (run_of_compile ran).1
  -- The projection is read by the first of the parts behind the filter.
  rw [convertQuery_eq] at gave
  obtain ⟨filter, _, -, gave⟩ := Compile.ok_of_bind gave
  obtain ⟨own, _, chosen, -⟩ := Compile.ok_of_bind gave
  obtain ⟨payload, _, selected, -⟩ := Compile.ok_of_bind chosen
  simp only [payloadOf, there, Bool.false_eq_true, if_false] at selected
  obtain ⟨fields, _, read_, -⟩ := Compile.ok_of_bind selected
  obtain ⟨-, -, reads, -⟩ := Projection.yields_readTop _ _ _ _ _ read_
  exact ⟨fields, reads⟩

end ContentQuery.Qdrant
