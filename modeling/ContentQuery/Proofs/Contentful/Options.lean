import ContentQuery.Proofs.Contentful.Merging
import ContentQuery.Proofs.Reasons

/-! What the parameters beside a filter are made of, and the reasons for notices about them. -/

namespace ContentQuery.Contentful

open Compile (Yields NotesOnly)

/-- Reading a field path leaves a notice where it is none. -/
theorem notesOnly_path {reasons : List Reason} (listed : .invalidField ∈ reasons) (field : Value)
    (role : String) : (pathOf? field role).NotesOnly reasons := by
  -- A text that is no path, and a text that is none at all, are noted alike.
  have noted : NotesOnly reasons (do noteField field role; return (none : Option String)) :=
    .bind (.degrade listed) fun _ => .pure
  unfold pathOf?
  split
  · split
    · exact .pure
    · exact noted
  · exact noted
  · exact .refuse

section Filter

/-- Converting the literal of a comparison leaves a notice where it has no parameter. -/
theorem notesOnly_parameter (field : Value) (operator : Operator) (value : Value) :
    (parameterOf? field operator value).NotesOnly filterReasons := by
  unfold parameterOf?
  split
  · exact .pure
  · exact .bind (.dropInvalidValue (by decide)) fun _ => .pure

/-- A reference comparison leaves notices about its field and its literal. -/
theorem notesOnly_reference (field value : Value) :
    (convertReference field value).NotesOnly filterReasons := by
  -- The value, the field and the list may each be told of.
  refine .bind (notesOnly_parameter _ _ _) fun parameter => ?_
  split
  · exact .pure
  · dsimp only
    split
    · split
      · exact .bind (.degrade (by decide)) fun _ => .pure
      · exact .pure
    · refine .bind (notesOnly_path (by decide) _ _) fun path => ?_
      split <;> exact .pure

/-- A comparison leaves notices about its field and its literal. -/
theorem notesOnly_comparison (field : Value) (operator : Operator) (suffix : String)
    (value : Value) : (convertComparison field operator suffix value).NotesOnly filterReasons := by
  -- Only the comparisons that take a literal look at it.
  refine .bind (notesOnly_path (by decide) _ _) fun path => ?_
  split
  · exact .pure
  · dsimp only
    split
    · exact .pure
    · exact .pure
    · exact .pure
    · exact .pure
    · refine .bind (notesOnly_parameter _ _ _) fun parameter => ?_
      split <;> exact .pure

/-- A leaf leaves notices about its operator, its field and its literal. -/
theorem notesOnly_leaf (field : Value) (comparison : Comparison) (value : Value) :
    (convertLeaf field comparison value).NotesOnly filterReasons := by
  -- An operator is not supported by itself, or under a name that is none of the known ones.
  have unsupported : (convertLeaf.unsupported field comparison).NotesOnly filterReasons :=
    .bind (.degrade (by decide)) fun _ => .pure
  unfold convertLeaf
  split
  · exact notesOnly_reference field value
  · split
    · exact notesOnly_comparison _ _ _ _
    · exact unsupported
  · exact unsupported

/-- Alternatives on one field leave notices about the field and the values. -/
theorem notesOnly_membership (field : Value) (values : List Value) :
    (convertMembership field values).NotesOnly filterReasons := by
  -- The field may be told of, and then the values.
  refine .bind (notesOnly_path (by decide) _ _) fun path => ?_
  split
  · exact .pure
  · split
    · exact .pure
    · exact .bind .requireWritten fun _ => .bind (.degrade (by decide)) fun _ => .pure

/-- A negation leaves a notice that it cannot be expressed, or those of its leaf. -/
theorem notesOnly_negation (inner : Condition) :
    (convertNegation inner).NotesOnly filterReasons := by
  -- A negation is dropped with one notice, or is a leaf against the equality.
  unfold convertNegation
  split
  · exact .bind (.degrade (by decide)) fun _ => .pure
  · split
    · exact notesOnly_leaf _ _ _
    · exact .bind (.degrade (by decide)) fun _ => .pure

/-- Merging leaves notices about collisions. -/
theorem notesOnly_merge (entries : List (String × Parameter)) (map : FilterMap) :
    (mergeEntries entries map).NotesOnly filterReasons := by
  -- The map grows with each entry that is merged into it.
  induction entries generalizing map with
  | nil => exact .pure
  | cons entry rest ih =>
    unfold mergeEntries
    dsimp only
    split
    · exact .bind (.degrade (by decide)) fun _ => ih _
    · exact ih _

mutual

/-- Converting a condition leaves notices about parts of the filter. -/
theorem notesOnly_convert : (condition : Condition) →
    (convert condition).NotesOnly filterReasons
  | .leaf field comparison value => notesOnly_leaf field comparison value
  | .all conditions => notesOnly_convertInto .empty conditions
  | .any [] => .bind (.degrade (by decide)) fun _ => .pure
  | .any (first :: rest) => by
    have firstNotes := notesOnly_convert first
    -- One alternative is the condition itself, several are one only where they compare one field.
    unfold convert
    split
    · exact .pure
    · split
      · exact firstNotes
      · split
        · exact notesOnly_membership _ _
        · have across : (noteAcrossFields (first :: rest)).NotesOnly filterReasons :=
            .bind .ofExcept fun _ => .degrade (by decide)
          exact .bind across fun _ => firstNotes
  | .not condition => notesOnly_negation condition
termination_by structural condition => condition

/-- Converting conditions leaves notices about parts of the filter. -/
theorem notesOnly_convertInto (map : FilterMap) : (conditions : List Condition) →
    (convertInto map conditions).NotesOnly filterReasons
  -- By induction on the conditions, each converted and then merged.
  | [] => .pure
  | condition :: rest =>
    .bind (notesOnly_convert condition) fun _ => .bind (notesOnly_merge _ _) fun merged =>
      notesOnly_convertInto merged rest
termination_by structural conditions => conditions

end

/-- Converting the filter of a query leaves notices about parts of the filter. -/
theorem notesOnly_filterOf (settings : Settings) (query : Query) (conditions : List Condition) :
    (filterOf settings query conditions).NotesOnly filterReasons := by
  -- The types are told of first, and the conditions then.
  have typed : (noteTypes query).NotesOnly filterReasons := by
    unfold noteTypes
    split
    · exact .degrade (by decide)
    · exact .pure
  rw [filterOf_eq]
  exact .bind typed fun _ => notesOnly_convertInto _ _

end Filter

/-- The reasons for which a field of a projection is not selected as it was asked for. -/
def selectionReasons : List Reason :=
  [.invalidField, .unsupportedExclusion, .unsupportedAlias, .unsupportedComputed,
    .nestedProjection]

/-- Dropping a field leaves a notice for the reason that is given. -/
theorem notesOnly_dropField {reason : Reason} {message : String} {name : Value}
    (listed : reason ∈ selectionReasons) :
    (dropField reason message name).NotesOnly selectionReasons :=
  .bind .requireWritten fun _ => .bind (.degrade listed) fun _ => .pure

/-- Selecting a name leaves a notice where it is none. -/
theorem notesOnly_keyOfName (name : String) : (keyOfName name).NotesOnly selectionReasons := by
  -- A name that is no key is dropped with a notice.
  unfold keyOfName
  split
  · exact .pure
  · split
    · exact notesOnly_dropField (by decide)
    · exact .pure

/-- Selecting the key of a projection leaves notices about the projection. -/
theorem notesOnly_selectedKey (item : Projection) :
    (selectedKey item).NotesOnly selectionReasons := by
  -- Each kind of item that cannot be selected has a notice of its own.
  unfold selectedKey
  dsimp only
  split
  · exact notesOnly_dropField (by decide)
  · exact notesOnly_dropField (by decide)
  · exact notesOnly_dropField (by decide)
  · refine .bind (notesOnly_keyOfName _) fun key => ?_
    split
    · exact .bind (.degrade (by decide)) fun _ => .pure
    · exact .pure
  · exact notesOnly_keyOfName _
  · exact .refuse

/-- Keys are selected behind those that were selected before. -/
theorem yields_selectKeys (items : List Projection) (selected : List String) :
    (selectKeys selected items).Yields fun keys given =>
      (∃ added, keys = selected ++ added) ∧ ∀ notice ∈ given, notice.reason ∈ selectionReasons := by
  -- Each key is selected behind those in front of it, so that the first of them stays the first.
  induction items generalizing selected with
  | nil => exact .pure ⟨⟨[], (List.append_nil _).symm⟩, List.forall_mem_nil _⟩
  | cons item rest ih =>
    refine .bind (notesOnly_selectedKey item) fun key given listed => ?_
    -- Where nothing new is selected, the keys stay as they are.
    have skipped : (selectKeys selected rest).Yields fun keys given' =>
        (∃ added, keys = selected ++ added) ∧
          ∀ notice ∈ given ++ given', notice.reason ∈ selectionReasons :=
      (ih selected).mono fun _ _ ⟨found, listed'⟩ =>
        ⟨found, List.forall_mem_append.mpr ⟨listed, listed'⟩⟩
    cases key with
    | none => exact skipped
    | some key =>
      dsimp only
      split
      · exact skipped
      · refine (ih (selected ++ [key])).mono fun keys given' ⟨⟨added, same⟩, listed'⟩ => ?_
        exact ⟨⟨key :: added, by rw [same, List.append_assoc, List.singleton_append]⟩,
          List.forall_mem_append.mpr ⟨listed, listed'⟩⟩

/-- A projection selects metadata first, and asks for the expansions that it is read to. -/
theorem yields_selectionOf (settings : Settings) (query : Query) :
    (selectionOf settings query).Yields fun result given =>
      (query.projection.isNull = false →
        ∃ added, result.1 = some (",".intercalate ("sys" :: added))) ∧
      (∃ fields, Projection.ReadsTo settings.depthLimit query.projection fields ∧
        result.2 = Projection.deepest fields) ∧
      ∀ notice ∈ given, notice.reason ∈ .invalidProjection :: selectionReasons := by
  -- The system section is always selected, and the keys of the fields behind it.
  unfold selectionOf
  split
  · rename_i none_
    exact .pure ⟨fun there => by simp [none_] at there,
      ⟨[], Projection.readsTo_of_isNull none_, rfl⟩, List.forall_mem_nil _⟩
  · refine .bind (Projection.yields_readTop _ _) fun fields given ⟨reads, read_⟩ => ?_
    refine .bind (yields_selectKeys fields _) fun keys given' ⟨⟨added, same⟩, selected⟩ => ?_
    refine .bind (Projection.yields_measure fields) fun levels given'' ⟨deepest, none_⟩ => ?_
    subst same none_
    refine .pure ⟨fun _ => ⟨added, rfl⟩, ⟨fields, reads, deepest⟩, ?_⟩
    simp only [List.append_nil, List.forall_mem_append]
    exact ⟨fun notice member => by simp_all, fun notice member =>
      List.mem_cons_of_mem _ (selected notice member)⟩

/-- The reasons for notices about the parameters beside a filter, a clamped depth apart. -/
def optionReasons : List Reason :=
  .invalidProjection :: selectionReasons ++ [.cursorPagination, .unsupportedLocale]

/-- Choosing an order leaves notices about fields that are none. -/
theorem notesOnly_orderClauses (entries : List Value) :
    (orderClauses entries).NotesOnly optionReasons := by
  induction entries with
  | nil => exact .pure
  | cons entry rest ih =>
    -- A field that is dropped has no clause, and what follows it is the same.
    have joined (clause : List String) :
        NotesOnly optionReasons (do return clause ++ (← orderClauses rest)) :=
      .bind ih fun _ => .pure
    refine .bind .ofExcept fun field =>
      .bind (notesOnly_path (by decide) _ _) fun path => ?_
    cases path with
    | none => exact joined []
    | some path => exact .bind .ofExcept fun direction => joined _

/-- Choosing a window leaves a notice about a cursor. -/
theorem notesOnly_windowOf (settings : Settings) (query : Query) :
    (windowOf settings query).NotesOnly optionReasons := by
  -- A window may be told of once.
  unfold windowOf
  dsimp only
  split
  · exact .bind (.degrade (by decide)) fun _ => .pure
  · exact .pure

/-- Whether a value is one that a query can send: a text, a number, or a locale that was given. -/
def IsSent (settings : Settings) (query : Query) (value : Value) : Prop :=
  (∃ words, value = .text words) ∨ (∃ number, value = .int number) ∨
    value = query.locale ∨ value = settings.defaultLocale

/-- A locale is chosen of those that were given, and a fallback is noted. -/
theorem yields_localeOf (settings : Settings) (everyLocale : Value) (query : Query) :
    (localeOf settings everyLocale query).Yields fun locale given =>
      IsSent settings query locale ∧ ∀ notice ∈ given, notice.reason ∈ optionReasons := by
  -- A fallback is noted first, whichever locale is chosen then.
  have chosen (noted : List Notice) (listed : ∀ notice ∈ noted, notice.reason ∈ optionReasons) :
      Yields (if query.locale.isTruthy then return query.locale
        else if everyLocale.isTruthy then return .text "*" else return settings.defaultLocale)
        fun locale given => IsSent settings query locale ∧
          ∀ notice ∈ noted ++ given, notice.reason ∈ optionReasons := by
    rw [← List.append_nil noted] at listed
    split
    · exact .pure ⟨Or.inr (Or.inr (Or.inl rfl)), listed⟩
    · split
      · exact .pure ⟨Or.inl ⟨_, rfl⟩, listed⟩
      · exact .pure ⟨Or.inr (Or.inr (Or.inr rfl)), listed⟩
  unfold localeOf
  dsimp only
  split
  · exact .noted (chosen [_] (List.forall_mem_singleton.mpr (by decide)))
  · exact chosen [] (List.forall_mem_nil _)

/-- An entry is under a text, and it is what can be sent where its value is. -/
theorem sent_entry {settings : Settings} {query : Query} {value : Option Value}
    (sent : ∀ given ∈ value, IsSent settings query given) (name : String) :
    ∀ entry ∈ entry? name value,
      (∃ words, entry.1 = .text words) ∧ IsSent settings query entry.2 := by
  cases value with
  | none => exact List.forall_mem_nil _
  | some given => exact List.forall_mem_singleton.mpr ⟨⟨name, rfl⟩, sent given rfl⟩

/-- The levels that are asked of the service: a depth that is granted, or zero where it is said. -/
def includeLevels (query : Query) (depth : Nat) : Option Nat :=
  if depth ≠ 0 then some depth else if query.resolve.declines then some 0 else none

/-- Where no level is asked for, there is none, whether or not that is said. -/
theorem getD_includeLevels (query : Query) (depth : Nat) :
    ((includeLevels query depth).map fun levels : Nat => Value.int levels).getD (.int 0) =
      .int depth := by
  unfold includeLevels
  -- Zero levels are sent only where a query declines them, and not sent otherwise.
  by_cases none_ : depth = 0
  · subst none_
    cases query.resolve.declines <;> rfl
  · rw [if_pos none_]
    rfl

/-- The depth of references is what the limit grants of the request and the expansions. -/
theorem yields_includeOf (settings : Settings) (query : Query) (expansions : Nat) :
    (includeOf settings query expansions).Yields fun levels given =>
      levels = includeLevels query
        (min (max query.resolve.levelCount.toNat expansions) settings.maxResolveDepth) ∧
        (Mentions .resolveDepthClamped given ↔
          settings.maxResolveDepth < max query.resolve.levelCount.toNat expansions) := by
  -- The depth is what was asked for or what the expansions need, up to the limit.
  refine .bind (settings.yields_resolveWith query expansions) fun depth given ⟨granted, cut⟩ => ?_
  rw [← granted]
  unfold includeLevels
  split
  · rename_i some_
    exact .pure ⟨(if_pos (by simpa using some_)).symm, by rw [List.append_nil, cut]⟩
  · rename_i none_
    exact .pure ⟨(if_neg (by simpa using none_)).symm, by rw [List.append_nil, cut]⟩

/-- What the parameters beside a filter say about the selection and the depth of references. -/
structure OptionsHold (settings : Settings) (query : Query) (own : OrderedMap Value Value)
    (given : List Notice) : Prop where
  /-- The selection opens with metadata. -/
  selects : query.projection.isNull = false →
    ∃ added, own.get? (.text "select") = some (.text (",".intercalate ("sys" :: added)))
  resolves : ∃ fields, Projection.ReadsTo settings.depthLimit query.projection fields ∧
    own.get? (.text "include") = (includeLevels query (min (max query.resolve.levelCount.toNat
      (Projection.deepest fields)) settings.maxResolveDepth)).map (fun levels => .int levels) ∧
    (Mentions .resolveDepthClamped given ↔ settings.maxResolveDepth <
      max query.resolve.levelCount.toNat (Projection.deepest fields))
  sent : ∀ entry ∈ own.entries, (∃ words, entry.1 = .text words) ∧ IsSent settings query entry.2

/-- The parameters beside a filter are those of the selection, the depth and the other parts. -/
theorem yields_optionsOf (settings : Settings) (everyLocale : Value) (query : Query) :
    (optionsOf settings everyLocale query).Yields (OptionsHold settings query) := by
  refine .bind (yields_selectionOf settings query) fun selection first
    ⟨selects, ⟨fields, reads, expansions⟩, listed⟩ => ?_
  refine .bind (notesOnly_orderClauses query.order) fun clauses second listed₂ => ?_
  refine .bind (notesOnly_windowOf settings query) fun window third listed₃ => ?_
  refine .bind (yields_localeOf settings everyLocale query) fun locale fourth
    ⟨chosen, listed₄⟩ => ?_
  refine .bind (yields_includeOf settings query _) fun depth last ⟨granted, cut⟩ => .pure ?_
  rw [expansions] at granted cut
  -- Only the last part may have cut a depth.
  have others : ¬ Mentions .resolveDepthClamped first ∧ ¬ Mentions .resolveDepthClamped second ∧
      ¬ Mentions .resolveDepthClamped third ∧ ¬ Mentions .resolveDepthClamped fourth :=
    ⟨Mentions.absent listed (by decide), Mentions.absent listed₂ (by decide),
      Mentions.absent listed₃ (by decide), Mentions.absent listed₄ (by decide)⟩
  -- Each parameter is found behind those of other names.
  refine ⟨fun there => ?_, ⟨fields, reads, ?_, ?_⟩, ?_⟩
  · obtain ⟨added, same⟩ := selects there
    refine ⟨added, ?_⟩
    simp only [List.append_assoc, entry?, Value.get?_optional, same]
    rfl
  · rw [← List.append_nil ( entry? "include" _)]
    simp only [List.append_assoc, entry?, Value.get?_optional, granted, String.reduceEq, if_false,
      if_true]
    cases includeLevels query _ <;> rfl
  · simp only [List.append_nil, Mentions.append, others, false_or, cut]
  · have made {α : Type} {value : Option α} {make : α → Value}
        (each : ∀ part, IsSent settings query (make part)) :
        ∀ given ∈ value.map make, IsSent settings query given := by
      intro given there
      obtain ⟨part, -, rfl⟩ := Option.map_eq_some_iff.mp there
      exact each part
    have text (words : String) : IsSent settings query (.text words) := Or.inl ⟨words, rfl⟩
    have number (count : Int) : IsSent settings query (.int count) := Or.inr (Or.inl ⟨count, rfl⟩)
    simp only [List.forall_mem_append]
    refine ⟨⟨⟨⟨⟨sent_entry (made text) _, sent_entry ?_ _⟩, sent_entry ?_ _⟩,
      sent_entry (made number) _⟩, sent_entry ?_ _⟩, sent_entry (made number) _⟩
    · split
      · exact fun _ none_ => absurd none_ (Option.not_mem_none _)
      · rintro _ ⟨⟩
        exact text _
    · split
      · exact fun _ none_ => absurd none_ (Option.not_mem_none _)
      · rintro _ ⟨⟩
        exact number _
    · split
      · rintro _ ⟨⟩
        exact chosen
      · exact fun _ none_ => absurd none_ (Option.not_mem_none _)

/-- The reasons for notices about anything beside a filter. -/
def besideReasons : List Reason :=
  .resolveDepthClamped :: .parameterCollision :: optionReasons

/-- What follows the filter of a query leaves notices about what is beside it. -/
theorem notesOnly_finish (settings : Settings) (everyLocale : Value) (query : Query)
    (filter : FilterMap) :
    (finish settings everyLocale query filter).NotesOnly besideReasons := by
  -- Step by step, each with reasons of its own.
  have within : optionReasons ⊆ besideReasons := by decide
  have selects : .invalidProjection :: selectionReasons ⊆ besideReasons := by decide
  have selected : (selectionOf settings query).NotesOnly besideReasons :=
    (yields_selectionOf settings query).mono fun _ _ ⟨_, _, listed⟩ notice member =>
      selects (listed notice member)
  have located : (localeOf settings everyLocale query).NotesOnly besideReasons :=
    (yields_localeOf settings everyLocale query).mono fun _ _ ⟨_, listed⟩ notice member =>
      within (listed notice member)
  have ordered := (notesOnly_orderClauses query.order).mono within
  have cut := (notesOnly_windowOf settings query).mono within
  have resolved (expansions : Nat) :
      (includeOf settings query expansions).NotesOnly besideReasons := by
    have granted := (settings.notesOnly_resolveWith query expansions).mono
      (show [.resolveDepthClamped] ⊆ besideReasons by decide)
    refine .bind granted fun depth => ?_
    split <;> exact .pure
  have options : (optionsOf settings everyLocale query).NotesOnly besideReasons :=
    .bind selected fun _ => .bind ordered fun _ => .bind cut fun _ => .bind located fun _ =>
      .bind (resolved _) fun _ => .pure
  exact .bind options fun own =>
    .bind ((notesOnly_passThrough _ _ _ _ _).mono (by decide)) fun _ => .pure

/-- What a query is converted to has these parameters, and those that are passed through. -/
theorem yields_convertQuery (settings : Settings) (everyLocale : Value) (query : Query)
    (conditions : List Condition) :
    (convertQuery settings everyLocale query conditions).Yields fun result given =>
      ∃ own, OptionsHold settings query own given ∧
        result.2 = passed (convertQuery.inFilter result.1) id query.params.entries own := by
  rw [convertQuery_eq]
  refine .bind (notesOnly_filterOf settings query conditions) fun filter first listed => ?_
  refine .bind (yields_optionsOf settings everyLocale query) fun own second held => ?_
  have through := (ensures_passThrough (convertQuery.inFilter filter) id "parameter"
    query.params.entries own).yields.and (notesOnly_passThrough _ _ _ _ _)
  refine .bind through fun parameters third ⟨same, listed'⟩ => .pure ⟨own, ?_, same⟩
  -- Neither the filter nor what is passed through is noted for a depth.
  refine { held with resolves := ?_ }
  obtain ⟨fields, reads, sent, cut⟩ := held.resolves
  have before : ¬ Mentions .resolveDepthClamped first := Mentions.absent listed (by decide)
  have behind : ¬ Mentions .resolveDepthClamped third := Mentions.absent listed' (by decide)
  refine ⟨fields, reads, sent, ?_⟩
  simp only [List.append_nil, Mentions.append, before, behind, false_or, or_false, cut]

/-- The parameters of a request are these, and those that are passed through. -/
theorem options_of_compile {settings : Settings} {everyLocale : Value} {query : Query}
    {conditions : List Condition} {compiled : Request}
    (ran : compile settings everyLocale query conditions = .ok compiled) :
    ∃ own, OptionsHold settings query own compiled.notices ∧ compiled.parameters =
      passed (convertQuery.inFilter compiled.query) id query.params.entries own := by
  obtain ⟨after, converted, listed, -⟩ := Compiled.ok_of_run (run_of_compile ran).1
  obtain ⟨given, same, held⟩ := yields_convertQuery _ _ _ _ _ _ _ converted
  rw [listed, same]
  exact held

end ContentQuery.Contentful
