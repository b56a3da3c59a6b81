import ContentQuery.Proofs.Contentful.Alternatives
import ContentQuery.Proofs.Contentful.Merging

/-! A filter map errs in the directions that the notices about its conditions name. -/

namespace ContentQuery.Contentful

open Compile (Ensures)

/-- What a negation is converted to denies its condition, or was dropped with a notice. -/
theorem ensures_negation {inner : Condition} (plain : hasPlain inner = true) :
    (convertNegation inner).Ensures (Directed fun reading => ¬ Holds reading inner) := by
  unfold convertNegation
  -- What is always true is treated first, and then only an equality has a negation.
  split
  · exact ensures_dropped (by decide) fun _ => .lost
  · split
    · rename_i field value _
      refine ensures_comparison (fun _ => .lost) fun path entry same valid made => ?_
      subst same
      refine .of_iff (List.forall_mem_singleton.mpr (exact_entryOf plain made)) fun reading => ?_
      rw [mapHolds_entry reading (entryOf_ne made)]
      exact holds_notEqual reading valid made
    · exact ensures_dropped (by decide) fun _ => .lost

mutual

/-- What a condition is converted to errs in the noted direction only. -/
theorem ensures_convert : (condition : Condition) → hasPlain condition = true →
    (convert condition).Ensures (Directed fun reading => Holds reading condition)
  | .leaf field comparison value, plain => ensures_leaf field comparison plain
  | .all conditions, plain =>
    (ensures_convertInto conditions plain exact_empty).mono
      fun _ _ directed => directed.congr fun reading => by simp [Holds]
  | .any [], _ => ensures_dropped (by decide) fun _ => .lost
  | .any (first :: rest), plain => by
    have firstEnsures := ensures_convert first (Bool.and_eq_true_iff.mp plain).1
    have plainBranches : ∀ branch ∈ first :: rest, hasPlain branch = true :=
      (allHavePlain_iff _).mp plain
    unfold convert
    split
    · -- A branch that constrains nothing holds, whatever the others ask for.
      rename_i free
      obtain ⟨branch, member, always⟩ := List.any_eq_true.mp free
      refine .pure (.of_iff exact_empty fun reading => iff_of_true (mapHolds_empty reading) ?_)
      exact (anyHolds_iff reading _).mpr ⟨branch, member, holds_of_alwaysTrue reading branch always⟩
    · split
      · rename_i alone
        obtain rfl : rest = [] := List.isEmpty_iff.mp alone
        exact firstEnsures.mono fun _ _ directed => directed.congr fun reading => by
          simp [Holds, AnyHolds]
      · split
        · rename_i values together
          exact ensures_membership plainBranches together
        · -- Only the first branch is compiled, which excludes what only others ask for.
          refine .bind (ensures_noteAcrossFields _) fun _ notices across =>
            firstEnsures.mono fun result notices' directed => ?_
          obtain ⟨notice, rfl, reason⟩ := across
          refine directed.after (fun free => ?_) fun _ reading held => Or.inl held
          exact absurd reason (free notice (List.mem_singleton_self notice))
  | .not condition, plain => ensures_negation plain
termination_by structural condition => condition

/-- What conditions are merged to errs in the noted directions only. -/
theorem ensures_convertInto : (conditions : List Condition) → allHavePlain conditions = true →
    {map : FilterMap} → Exact map → (convertInto map conditions).Ensures
      (Directed fun reading => MapHolds reading map ∧ AllHold reading conditions)
  | [], _, _, exact_ => .pure (.of_iff exact_ fun _ => (and_iff_left trivial).symm)
  | condition :: rest, plain, map, exact_ => by
    obtain ⟨first, others⟩ := Bool.and_eq_true_iff.mp plain
    refine .bind (ensures_convert condition first) fun source notices converted =>
      .bind (ensures_mergeEntries exact_ converted.exact_) fun merged notices' joined =>
        (ensures_convertInto rest others joined.exact_).mono fun result notices'' directed => ?_
    -- The errors of the three steps add up, each in the directions of its own notices.
    have between : Directed
        (fun reading => (MapHolds reading map ∧ MapHolds reading source) ∧ AllHold reading rest)
        result (notices' ++ notices'') :=
      directed.after (fun free reading held => ⟨joined.widens free reading held.1, held.2⟩)
        fun only reading held => ⟨joined.narrows only reading held.1, held.2⟩
    refine between.after (fun free reading held => ?_) fun only reading held => ?_
    · obtain ⟨before, true_, remaining⟩ := held
      exact ⟨⟨before, converted.widens free reading true_⟩, remaining⟩
    · obtain ⟨⟨before, true_⟩, remaining⟩ := held
      exact ⟨before, converted.narrows only reading true_, remaining⟩
termination_by structural conditions => conditions

end

theorem exact_startOf (query : Query) : Exact (startOf query) := by
  unfold startOf
  split
  · exact exact_empty
  · exact List.forall_mem_singleton.mpr trivial

@[simp] theorem mapHolds_startOf (reading : Reading) (query : Query) :
    MapHolds reading (startOf query) := by
  unfold startOf
  -- The only entry names the content type, which is no part of the reading.
  split
  · exact mapHolds_empty reading
  · simp [MapHolds, single]

/-- Behind notices about the query, a filter is what its conditions are merged to. -/
def Merged (query : Query) (conditions : List Condition) (filter : FilterMap)
    (notices : List Notice) : Prop :=
  ∃ before given, notices = before ++ given ∧
    (convertInto (startOf query) conditions).Gives filter given ∧
      Directed (fun reading => AllHold reading conditions) filter given

/-- The filter of a query is what its conditions and those of the compiler are merged to. -/
theorem ensures_filterOf (settings : Settings) (query : Query) {own : List Condition}
    (plain : allHavePlain (own ++ settings.globalFilter.conditionList) = true) :
    (filterOf settings query own).Ensures
      (Merged query (own ++ settings.globalFilter.conditionList)) := by
  rw [filterOf_eq]
  -- The notice about further types stands before those about conditions.
  refine .bind (ensures_noteTypes query) fun _ before _ =>
    (ensures_convertInto _ plain (exact_startOf query)).gives.mono fun filter given met => ?_
  exact ⟨before, given, rfl, met.1, met.2.congr fun reading =>
    and_iff_right (mapHolds_startOf reading query)⟩

/--
The parameters of a compiled query are those that its conditions and those of the compiler are
merged to. Where no notice about these conditions names alternatives across fields, they exclude
nothing that is asked for. Where every notice names them, they include nothing else. Without
notices, the parameters hold exactly when all conditions do.
-/
theorem filter_degrades_one_way {settings : Settings} {everyLocale : Value} {query : Query}
    {compiled : Request} {own : List Condition}
    (built : (Compiler.contentful settings everyLocale).compileQuery query =
      .ok (.request compiled))
    (read : (Compiler.contentful settings everyLocale).conditionsOf query = .ok own)
    (plain : allHavePlain (own ++ settings.globalFilter.conditionList) = true) :
    ∃ given,
      (convertInto (startOf query) (own ++ settings.globalFilter.conditionList)).Gives
          compiled.query given ∧
        (∀ notice ∈ given, notice ∈ compiled.notices) ∧ ∀ reading : Reading,
          ((∀ notice ∈ given, notice.reason ≠ .orAcrossFields) →
            AllHold reading (own ++ settings.globalFilter.conditionList) →
              MapHolds reading compiled.query) ∧
          ((∀ notice ∈ given, notice.reason = .orAcrossFields) →
            MapHolds reading compiled.query →
              AllHold reading (own ++ settings.globalFilter.conditionList)) ∧
          (given = [] → (MapHolds reading compiled.query ↔
            AllHold reading (own ++ settings.globalFilter.conditionList))) := by
  obtain ⟨own', read', converted⟩ := Compiler.conditions_of_compileQuery built
  obtain rfl : own' = own := Except.ok.inj (read'.symm.trans read)
  obtain ⟨after, filtered, kept⟩ := filter_of_compile (request_of_output converted)
  obtain ⟨notices, extended, -, before, given, rfl, gives, directed⟩ :=
    (ensures_filterOf settings query plain).of_run filtered
  -- The notices about conditions stand behind one about the types, if there is one.
  refine ⟨given, gives, fun notice member => kept.subset ?_, fun reading =>
    ⟨fun free => directed.widens free reading, fun only => directed.narrows only reading, ?_⟩⟩
  · rw [extended]
    simp [Context.extend, member]
  · -- Without notices, neither direction is open to errors.
    rintro rfl
    exact ⟨directed.narrows (List.forall_mem_nil _) reading,
      directed.widens (List.forall_mem_nil _) reading⟩

/-- A compiler that adds a condition to every query. -/
def scopedSettings : Settings :=
  { Settings.standard with
    globalFilter := .conditions [.leaf (.text "site") (.text "!=") (.text "test")]
      [.leaf (.text "site") (.known .notEqual) (.text "test")] }

/-- A query for posts of two levels that have a slug or an author. -/
def leveledQuery : Query :=
  { Query.everything with
    types := .one "post"
    filter := [
      .node .null .null .null .null
        (.list [.leaf (.text "level") (.text "==") (.int 1),
          .leaf (.text "level") (.text "in") (.list [.int 1, .int 2])]) .null,
      .node .null .null .null .null
        (.list [.leaf (.text "slug") (.text "defined") .null,
          .leaf (.text "author") (.text "==") (.text "z")]) .null] }

/-- Alternatives across fields are narrowed with a notice, and nothing is wrongly included. -/
theorem filter_degrades_one_way_leveled :
    ∃ compiled own,
      (Compiler.contentful scopedSettings .null).compileQuery leveledQuery =
          .ok (.request compiled) ∧
        (Compiler.contentful scopedSettings .null).conditionsOf leveledQuery = .ok own ∧
          compiled.notices.map Notice.reason = [.orAcrossFields] ∧ ∀ reading : Reading,
            MapHolds reading compiled.query →
              AllHold reading (own ++ scopedSettings.globalFilter.conditionList) := by
  -- The only notice is that of a disjunction across fields, which leads in one direction.
  obtain ⟨compiled, own, built, read, plain, across⟩ : ∃ compiled own,
      (Compiler.contentful scopedSettings .null).compileQuery leveledQuery =
          .ok (.request compiled) ∧
        (Compiler.contentful scopedSettings .null).conditionsOf leveledQuery = .ok own ∧
          allHavePlain (own ++ scopedSettings.globalFilter.conditionList) = true ∧
            compiled.notices.map Notice.reason = [.orAcrossFields] :=
    ⟨_, _, rfl, rfl, rfl, rfl⟩
  obtain ⟨given, -, noted, directed⟩ := filter_degrades_one_way built read plain
  refine ⟨compiled, own, built, read, across, fun reading =>
    (directed reading).2.1 fun notice member => ?_⟩
  have listed : notice.reason ∈ compiled.notices.map Notice.reason :=
    List.mem_map_of_mem (noted notice member)
  rw [across] at listed
  exact List.mem_singleton.mp listed

end ContentQuery.Contentful
