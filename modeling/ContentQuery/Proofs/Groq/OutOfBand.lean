import ContentQuery.Proofs.Groq.Expansions

/-! The notice that a depth alone resolves nothing: when it is left, and when it is right. -/

namespace ContentQuery

namespace Projection

/-- A list with an expansion in it, or below one of its nested fields, has a chain of them. -/
theorem deepest_pos_iff (fields : List Projection) :
    0 < deepest fields ↔ fields.any isExpansion = true ∨
      ∃ name inner, .nested name inner ∈ fields ∧ 0 < deepest inner := by
  induction fields with
  | nil => simp [deepest]
  | cons item rest ih =>
    -- Of a single item, an expansion counts by itself and a nested field by what is below it.
    have here : 0 < expansionDepth item ↔
        item.isExpansion = true ∨ ∃ name inner, .nested name inner = item ∧ 0 < deepest inner := by
      cases item with
      | expanded name fields =>
        have positive : 0 < 1 + deepest fields := by omega
        simp [expansionDepth, isExpansion, positive]
      | _ => simp [expansionDepth, isExpansion]
    have longest : 0 < deepest (item :: rest) ↔ 0 < expansionDepth item ∨ 0 < deepest rest := by
      rw [deepest]
      omega
    rw [longest, here, ih, List.any_cons, Bool.or_eq_true]
    simp only [List.mem_cons, or_and_right, exists_or]
    exact or_or_or_comm

end Projection

namespace Groq

open Compile (Yields NotesOnly)

/-- The reasons for notices about the attributes of a projection. -/
def conversionReasons : List Reason :=
  .resolveDepthClamped :: attributeReasons

/-- What is delivered without a reference is noted for the reasons of attributes. -/
theorem notesOnly_of_flat {compile : Compile (Option Attribute)} (flat : compile.Yields Flat) :
    compile.NotesOnly conversionReasons :=
  flat.mono fun _ _ met notice member => List.mem_cons_of_mem _ (met.2 notice member)

/-- A name leaves a notice where it is none. -/
theorem notesOnly_nameOf? (name : Value) : (nameOf? name).NotesOnly conversionReasons := by
  -- The only notice is that of a field which is no name.
  unfold nameOf?
  split
  · split
    · exact .pure
    · exact .bind (.degrade (by decide)) fun _ => .pure
  · exact .refuse

/-- A reference that is left unresolved is noted for its depth. -/
theorem notesOnly_leaveUnresolved (limit : Nat) (name : String) :
    (leaveUnresolved limit name).NotesOnly conversionReasons :=
  .bind (.degrade (by decide)) fun _ => .pure

/-- Asking for a key leaves no notice. -/
theorem notesOnly_requireKey (name : Value) : (requireKey name).NotesOnly conversionReasons := by
  unfold requireKey
  split
  · exact .requireWritten
  · exact .refuse

mutual

/-- Converting a projection leaves notices about its attributes only. -/
theorem notesOnly_convertField (limit depth : Nat) :
    (item : Projection) → (convertField limit depth item).NotesOnly conversionReasons
  -- Each kind of item has its own notices, which are all of the conversion.
  | .excluded _ => notesOnly_of_flat (yields_dropAttribute (by decide))
  | .alias name path => notesOnly_of_flat (yields_convertAlias name path)
  | .computed name function arguments =>
    notesOnly_of_flat (yields_convertComputed name function arguments)
  | .included name => .bind (notesOnly_nameOf? name) fun _ => .pure
  | .nested name fields => by
    have inside := notesOnly_convertFields limit depth fields
    unfold convertField
    refine .bind (notesOnly_nameOf? name) fun known => ?_
    split
    · exact .pure
    · refine .bind inside fun attributes => ?_
      split <;> exact .pure
  | .resolved name => by
    unfold convertField
    refine .bind (notesOnly_nameOf? name) fun known => ?_
    split
    · exact .pure
    · split
      · exact notesOnly_leaveUnresolved _ _
      · exact .pure
  | .expanded name fields => by
    have inside := notesOnly_convertFields limit (depth + 1) fields
    unfold convertField
    refine .bind (notesOnly_nameOf? name) fun known => ?_
    split
    · exact .pure
    · split
      · exact notesOnly_leaveUnresolved _ _
      · exact .bind inside fun _ => .pure
  | .stray _ => .refuse
termination_by structural item => item

/-- Converting projections leaves notices about their attributes only. -/
theorem notesOnly_convertFields (limit depth : Nat) :
    (items : List Projection) → (convertFields limit depth items).NotesOnly conversionReasons
  | [] => .pure
  | item :: rest =>
    .bind (notesOnly_requireKey _) fun _ => .bind (notesOnly_convertField limit depth item) fun _ =>
      .bind (notesOnly_convertFields limit depth rest) fun _ => .pure
termination_by structural items => items

end

/-- Converting the projections of a query leaves notices about its attributes only. -/
theorem notesOnly_convertTop (limit : Nat) (fields : List Projection) :
    (convertTop limit fields).NotesOnly conversionReasons := by
  refine .bind (notesOnly_convertFields limit 0 fields) fun attributes => ?_
  split
  · exact .pure
  · exact .refuse

/-- The notice is left where a depth is granted and nothing at the top resolves a reference. -/
def NotesIdleDepth (settings : Settings) (query : Query) (fields : List Projection)
    (given : List Notice) : Prop :=
  Mentions .resolveOutOfBand given ↔
    0 < min query.resolve.levelCount.toNat settings.maxResolveDepth ∧
      fields.any Projection.isExpansion = false

section Query

variable {settings : Settings} {query : Query} {fields : List Projection}
  (reads : Projection.ReadsTo settings.depthLimit query.projection fields)
include reads

/-- The projection of a query is looked at for the notice before it is converted. -/
theorem notesIdleDepth_projectionOf :
    (projectionOf settings query).Yields fun _ given =>
      NotesIdleDepth settings query fields given := by
  refine .bind (Projection.yields_readTop _ _) fun fields' first ⟨reads', listed⟩ => ?_
  obtain rfl := reads.unique reads'
  have granted : (settings.resolveDepth query).Yields fun depth given =>
      depth = min query.resolve.levelCount.toNat settings.maxResolveDepth ∧
        ∀ notice ∈ given, notice.reason ∈ [.resolveDepthClamped] :=
    ((settings.yields_resolveDepth query).mono fun _ _ ⟨same, _⟩ => same).and
      (settings.notesOnly_resolveDepth query)
  refine .bind granted fun depth second ⟨same, listed₂⟩ => ?_
  -- Whatever is converted then is noted for other reasons.
  have ended : (if query.projection.isNull then pure none
      else return some (← convertTop settings.maxResolveDepth fields) :
        Compile (Option (List Attribute))).NotesOnly conversionReasons := by
    split
    · exact .pure
    · exact .bind (notesOnly_convertTop _ _) fun _ => .pure
  have before : ¬ Mentions .resolveOutOfBand first ∧ ¬ Mentions .resolveOutOfBand second :=
    ⟨Mentions.absent listed (by decide), Mentions.absent listed₂ (by decide)⟩
  dsimp only
  split
  · rename_i idle
    obtain ⟨wanted, flat⟩ : depth ≠ 0 ∧ fields.any Projection.isExpansion = false := by
      simpa using idle
    refine .noted (Yields.mono ended fun _ given _ => iff_of_true ?_ ⟨by omega, flat⟩)
    exact Mentions.append.mpr (Or.inr (Mentions.append.mpr (Or.inr
      (Mentions.cons.mpr (Or.inl rfl)))))
  · rename_i busy
    refine Yields.mono ended fun _ given listed₃ => iff_of_false ?_ ?_
    · have behind : ¬ Mentions .resolveOutOfBand given := Mentions.absent listed₃ (by decide)
      simp only [Mentions.append, before, behind, or_false, not_false_iff]
    · rintro ⟨wanted, flat⟩
      have positive : depth ≠ 0 := by omega
      simp [positive, flat] at busy

/-- Neither the filter nor anything else beside the projection leaves the notice. -/
theorem notesIdleDepth_of_compile {conditions : List Condition}
    {compiled : Compiled Statement Value}
    (ran : compile settings query conditions = .ok compiled) :
    NotesIdleDepth settings query fields compiled.notices := by
  obtain ⟨last, gave, listed, -⟩ := Compiled.ok_of_run (run_of_compile ran).2
  rw [convertQuery_eq] at gave
  obtain ⟨filter, after, filtered, ended⟩ := Compile.ok_of_bind gave
  obtain ⟨literals, lost, rfl, noted, -⟩ :=
    (ensures_filterParts_pruned settings query conditions).of_run (Except.ok.inj filtered)
  have finished : (finish settings query filter).Yields fun _ given =>
      NotesIdleDepth settings query fields given := by
    refine .bind (notesOnly_convertOrder query.order) fun order first listed => ?_
    refine .bind (notesOnly_convertSlice settings query) fun slice second listed₂ => ?_
    refine .bind (notesIdleDepth_projectionOf reads) fun projection third idle => ?_
    refine .bind (notesOnly_convertParameters settings query) fun parameters last listed₃ => ?_
    have others : ¬ Mentions .resolveOutOfBand first ∧ ¬ Mentions .resolveOutOfBand second ∧
        ¬ Mentions .resolveOutOfBand last :=
      ⟨Mentions.absent listed (by decide), Mentions.absent listed₂ (by decide),
        Mentions.absent listed₃ (by decide)⟩
    refine .pure ?_
    unfold NotesIdleDepth
    simp only [List.append_nil, Mentions.append, others, false_or, or_false]
    exact idle
  obtain ⟨given, same, idle⟩ := finished _ _ _ ended
  -- The notices about the filter are about its failing nodes.
  have unfiltered : ¬ Mentions .resolveOutOfBand lost :=
    Mentions.absent noted.reasons (by decide)
  have before : (Context.empty.extend literals lost).notices = lost := rfl
  unfold NotesIdleDepth
  rw [listed, same, before, Mentions.append, or_iff_right unfiltered]
  exact idle

end Query

/--
A depth without an effect is noted where it is positive and nothing at the top of the projection is
expanded. This is where nothing is expanded at all, unless a nested field has an expansion below it.
-/
theorem idle_depth_noted_iff {settings : Settings} {query : Query} {fields : List Projection}
    {compiled : Compiled Statement Value}
    (built : (Compiler.groq settings).compileQuery query = .ok (.statement compiled))
    (reads : Projection.ReadsTo settings.depthLimit query.projection fields) :
    (Mentions .resolveOutOfBand compiled.notices ↔
      0 < min query.resolve.levelCount.toNat settings.maxResolveDepth ∧
        fields.any Projection.isExpansion = false) ∧
    ((Mentions .resolveOutOfBand compiled.notices ↔
        0 < min query.resolve.levelCount.toNat settings.maxResolveDepth ∧
          Projection.deepest fields = 0) ↔
      ¬ (0 < min query.resolve.levelCount.toNat settings.maxResolveDepth ∧
        fields.any Projection.isExpansion = false ∧
          ∃ name inner, .nested name inner ∈ fields ∧ 0 < Projection.deepest inner)) := by
  obtain ⟨own, -, converted⟩ := Compiler.conditions_of_compileQuery built
  have noted := notesIdleDepth_of_compile reads (statement_of_output converted)
  refine ⟨noted, ?_⟩
  -- Nothing is expanded at all where neither the top nor a nested field has an expansion.
  have flat : Projection.deepest fields = 0 ↔ fields.any Projection.isExpansion = false ∧
      ¬ ∃ name inner, .nested name inner ∈ fields ∧ 0 < Projection.deepest inner := by
    have empty : Projection.deepest fields = 0 ↔ ¬ 0 < Projection.deepest fields := by omega
    rw [empty, Projection.deepest_pos_iff, not_or, Bool.not_eq_true]
  unfold NotesIdleDepth at noted
  rw [noted, flat]
  constructor
  · rintro same ⟨positive, bare, below⟩
    exact (same.mp ⟨positive, bare⟩).2.2 below
  · intro other
    constructor
    · rintro ⟨positive, bare⟩
      exact ⟨positive, bare, fun below => other ⟨positive, bare, below⟩⟩
    · rintro ⟨positive, bare, -⟩
      exact ⟨positive, bare⟩

/-- A query for one level of references, with a projection. -/
def oneLevelOf (projection : Value) : Query :=
  { Query.everything with projection, resolve := .levels 1 }

/-- Fields without an expansion, one of them below another. -/
def plainFields : Value :=
  .map [(.text "title", .bool true), (.text "seo", .map [(.text "image", .bool true)])]

/-- A level that is asked for beside fields without an expansion is noted. -/
theorem idle_depth_noted_iff_plain :
    ∃ compiled fields, (Compiler.groq Settings.standard).compileQuery (oneLevelOf plainFields) =
        .ok (.statement compiled) ∧
      Projection.ReadsTo Settings.standard.depthLimit plainFields fields ∧
        Projection.deepest fields = 0 ∧ Mentions .resolveOutOfBand compiled.notices := by
  -- The fields hold an object and no expansion.
  have reads : Projection.ReadsTo Settings.standard.depthLimit (oneLevelOf plainFields).projection
      [.included (.text "title"), .nested (.text "seo") [.included (.text "image")]] := ⟨_, rfl⟩
  refine ⟨_, _, rfl, reads, by decide, ?_⟩
  exact (idle_depth_noted_iff rfl reads).1.mpr (by decide)

/-- A field below which a reference is expanded. -/
def expandedBelow : Value :=
  .map [(.text "seo", .map [(.text "image", .map [(.text "expand", .bool true)])])]

/-- An expansion below a nested field resolves a level, and the level is noted all the same. -/
theorem nested_expansion_noted :
    ∃ compiled, (Compiler.groq Settings.standard).compileQuery
        (oneLevelOf expandedBelow) = .ok (.statement compiled) ∧
      compiled.query.projection = some [.nested "seo" [.resolved "image"]] ∧
        Projection.ReadsTo Settings.standard.depthLimit expandedBelow
          [.nested (.text "seo") [.resolved (.text "image")]] ∧
        0 < Projection.deepest [.nested (.text "seo") [.resolved (.text "image")]] ∧
          Mentions .resolveOutOfBand compiled.notices :=
  ⟨_, rfl, rfl, ⟨_, rfl⟩, by decide, _, List.mem_singleton_self _, rfl⟩

end Groq

end ContentQuery
