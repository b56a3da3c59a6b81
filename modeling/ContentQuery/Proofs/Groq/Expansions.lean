import ContentQuery.Proofs.Groq.Bindings
import ContentQuery.Proofs.Groq.ProjectionEntries
import ContentQuery.Proofs.Groq.Pruning
import ContentQuery.Proofs.ProjectionNames
import ContentQuery.Proofs.Reasons

/-! The attributes of a query's projection: their keys, and the expansions that the limit grants. -/

namespace ContentQuery.Groq

open Compile (Yields NotesOnly)
open Projection (isNamed areNamed isTextThat exists_of_isTextThat)
open scoped List

section Keys

variable {accepts : String → Bool} {bindings : List Value}

mutual

/-- What a named projection delivers has its name for a key, and texts for keys at every level. -/
theorem Delivers.keyed : {item : Projection} → {result : Option Attribute} →
    item.isNamed accepts = true → Delivers bindings item result →
      ∀ head ∈ result, head.HasTextKeys ∧ head.key = item.name
  -- By induction on the item, whose name is the key of what it delivers.
  | .included name, result, named, delivers => by
    rcases delivers with rfl | ⟨known, rfl, -, rfl⟩
    · exact nofun
    · rintro head ⟨⟩
      exact ⟨trivial, rfl⟩
  | .alias name path, result, named, delivers => by
    obtain ⟨key, rfl, -⟩ := exists_of_isTextThat named
    rcases delivers with rfl | ⟨words, -, -, rfl⟩
    · exact nofun
    · rintro head ⟨⟩
      exact ⟨⟨key, rfl⟩, rfl⟩
  | .computed name function arguments, result, named, delivers => by
    obtain ⟨key, rfl, -⟩ := exists_of_isTextThat named
    unfold Delivers at delivers
    split at delivers
    · rw [delivers]
      exact nofun
    · obtain ⟨slot, -, rfl⟩ := delivers
      rintro head ⟨⟩
      exact ⟨⟨key, rfl⟩, rfl⟩
  | .nested name fields, result, named, delivers => by
    -- A nested projection of which nothing is left is delivered as its name.
    rcases delivers with rfl | ⟨known, attributes, rfl, -, delivered, rfl⟩
    · exact nofun
    · have inside := (delivered.keyed (Bool.and_eq_true_iff.mp named).2).1
      rintro head ⟨⟩
      split
      · exact ⟨trivial, rfl⟩
      · exact ⟨(Attribute.haveTextKeys_iff attributes).mpr inside, rfl⟩
  | .resolved name, result, named, delivers => by
    rcases delivers with rfl | ⟨known, rfl, -, rfl | rfl⟩
    · exact nofun
    · rintro head ⟨⟩
      exact ⟨trivial, rfl⟩
    · rintro head ⟨⟩
      exact ⟨trivial, rfl⟩
  | .expanded name fields, result, named, delivers => by
    rcases delivers with rfl | ⟨known, rfl, -, rfl | ⟨attributes, delivered, rfl⟩⟩
    · exact nofun
    · rintro head ⟨⟩
      exact ⟨trivial, rfl⟩
    · have inside := (delivered.keyed (Bool.and_eq_true_iff.mp named).2).1
      rintro head ⟨⟩
      exact ⟨(Attribute.haveTextKeys_iff attributes).mpr inside, rfl⟩
  | .excluded _, result, _, delivers | .stray _, result, _, delivers => by
    rw [show result = none from delivers]
    exact nofun
termination_by structural item => item

/-- What named projections deliver has their names for keys, in their order. -/
theorem DeliverAll.keyed : {items : List Projection} → {attributes : List Attribute} →
    areNamed accepts items = true → DeliverAll bindings items attributes →
      (∀ head ∈ attributes, head.HasTextKeys) ∧
        attributes.map Attribute.key <+ items.map Projection.name
  | [], _, _, rfl => ⟨nofun, .slnil⟩
  | item :: rest, _, named, ⟨first, others, delivers, delivered, rfl⟩ => by
    obtain ⟨here, later⟩ := Bool.and_eq_true_iff.mp named
    have alone := delivers.keyed here
    obtain ⟨keyed, sublist⟩ := delivered.keyed later
    -- A projection that was dropped leaves its name out, and all others keep their order.
    cases first with
    | none => exact ⟨keyed, sublist.cons _⟩
    | some head =>
      obtain ⟨texts, same⟩ := alone head rfl
      refine ⟨List.forall_mem_cons.mpr ⟨texts, keyed⟩, ?_⟩
      show head.key :: others.map Attribute.key <+ item.name :: rest.map Projection.name
      rw [same]
      exact sublist.cons_cons _
termination_by structural items => items

end

end Keys

/-- The reasons for notices about attributes, a clamped depth apart. -/
def attributeReasons : List Reason :=
  [.unsupportedExclusion, .invalidField, .invalidValue, .invalidProjection]

/--
Of a chain of expansions that is wanted below some resolved references, the limit grants as many
levels as are left, and notes where these are too few.
-/
structure Grants (limit depth wanted granted : Nat) (given : List Notice) : Prop where
  granted_eq : granted = min wanted (limit - depth)
  cut : Mentions .resolveDepthClamped given ↔ limit < depth + wanted

namespace Grants

variable {limit depth : Nat} {given : List Notice}

/-- Where nothing is wanted, nothing is granted, and there is no notice about it. -/
theorem none (within : depth ≤ limit)
    (listed : ∀ notice ∈ given, notice.reason ∈ attributeReasons) :
    Grants limit depth 0 0 given where
  granted_eq := (Nat.zero_min _).symm
  cut := iff_of_false (Mentions.absent listed (by decide)) (by omega)

end Grants

/-- What is delivered without a reference that is resolved. -/
def Flat (result : Option Attribute) (given : List Notice) : Prop :=
  Attribute.deepest result.toList = 0 ∧ ∀ notice ∈ given, notice.reason ∈ attributeReasons

/-- An attribute that is dropped is noted. -/
theorem yields_dropAttribute {reason : Reason} {message : String} {name : Value}
    (listed : reason ∈ attributeReasons) : (dropAttribute reason message name).Yields Flat :=
  .noted (.pure ⟨rfl, List.forall_mem_singleton.mpr listed⟩)

/-- An alias resolves no reference by itself. -/
theorem yields_convertAlias (name path : Value) : (convertAlias name path).Yields Flat := by
  -- An alias is a flat attribute, or none.
  unfold convertAlias
  split
  · split
    · exact .pure ⟨rfl, List.forall_mem_nil _⟩
    · exact .written (yields_dropAttribute (by decide))
  · exact .written (yields_dropAttribute (by decide))

/-- A computed attribute resolves no reference. -/
theorem yields_convertComputed (name function : Value) (arguments : List Value) :
    (convertComputed name function arguments).Yields Flat := by
  unfold convertComputed
  split
  · split
    -- Arguments are bound without a notice, whether or not all of them can be.
    · have bound : (bindArguments arguments).run.lift.Yields fun _ given => given = [] :=
        .lift fun slot => Convert.Ensures.mono (ensures_bindArguments arguments slot)
          fun _ _ _ silent => silent.1
      refine .bind bound fun result given none_ => ?_
      subst none_
      split
      · exact .pure ⟨rfl, List.forall_mem_nil _⟩
      · exact .written (yields_dropAttribute (by decide))
    · exact yields_dropAttribute (by decide)
  · exact .refuse

/-- A text that is a name is taken for one. -/
theorem nameOf?_text {name : String} (valid : isName name = true) :
    nameOf? (.text name) = pure (some name) := by
  simp [nameOf?, valid]

/-- A key that can be written is required without a notice. -/
theorem yields_requireKey (name : Value) :
    (requireKey name).Yields fun _ given => given = [] := by
  unfold requireKey
  split
  · exact (Compile.Ensures.requireWritten fun _ => rfl).yields
  · exact .refuse

/-- A reference that is left unresolved is noted for the depth it would need. -/
theorem Grants.unresolved {limit depth : Nat} (exhausted : limit < depth + 1) (name : String)
    (below : Nat) :
    (leaveUnresolved limit name).Yields fun result given =>
      Grants limit depth (1 + below) (Attribute.deepest result.toList) given := by
  refine .noted (.pure ⟨?_, iff_of_true (Mentions.cons.mpr (Or.inl rfl)) (by omega)⟩)
  -- No level is left, so that none of what is wanted is granted.
  rw [Nat.sub_eq_zero_of_le (Nat.le_of_lt_succ exhausted), Nat.min_zero]
  rfl

/-- Attributes in two rows have the chains of both. -/
theorem Attribute.deepest_append (first second : List Attribute) :
    deepest (first ++ second) = max (deepest first) (deepest second) := by
  induction first with
  | nil => exact (Nat.zero_max _).symm
  | cons head rest ih => rw [List.cons_append, deepest, deepest, ih, Nat.max_assoc]

/-- An attribute by itself has its own chains. -/
theorem Attribute.deepest_singleton (head : Attribute) : deepest [head] = head.chain :=
  Nat.max_zero _

section Chain

variable {accepts : String → Bool}

-- By induction on the projection: an expansion leaves one level less to those inside it.
mutual

/-- A projection resolves as much of its chain of expansions as the limit grants. -/
theorem yields_convertField {limit depth : Nat}
    (identifies : ∀ name, accepts name = true → isName name = true) (within : depth ≤ limit) :
    (item : Projection) → item.isNamed accepts = true →
      (convertField limit depth item).Yields fun result given =>
        Grants limit depth item.expansionDepth (Attribute.deepest result.toList) given
  | .excluded name, _ => (yields_dropAttribute (by decide)).mono fun _ _ ⟨flat, listed⟩ =>
    flat ▸ .none within listed
  | .alias name path, _ => (yields_convertAlias name path).mono fun _ _ ⟨flat, listed⟩ =>
    flat ▸ .none within listed
  | .computed name function arguments, _ =>
    (yields_convertComputed name function arguments).mono fun _ _ ⟨flat, listed⟩ =>
      flat ▸ .none within listed
  | .included name, named => by
    obtain ⟨words, rfl, accepted⟩ := exists_of_isTextThat named
    unfold convertField
    rw [nameOf?_text (identifies words accepted)]
    exact .pure (.none within (List.forall_mem_nil _))
  | .nested name fields, named => by
    obtain ⟨here, inside⟩ := Bool.and_eq_true_iff.mp named
    obtain ⟨words, rfl, accepted⟩ := exists_of_isTextThat here
    have converted := yields_convertFields identifies within fields inside
    unfold convertField
    rw [nameOf?_text (identifies words accepted), pure_bind]
    dsimp only
    refine .bind converted fun attributes given grants => ?_
    -- A nested projection adds no level, whether or not anything of it is left.
    split
    · refine .pure ?_
      rw [List.append_nil]
      exact grants
    · refine .pure ?_
      rw [List.append_nil, Option.toList_some, Attribute.deepest_singleton]
      exact grants
  | .resolved name, named => by
    obtain ⟨words, rfl, accepted⟩ := exists_of_isTextThat named
    unfold convertField
    rw [nameOf?_text (identifies words accepted), pure_bind]
    dsimp only
    split
    · rename_i exhausted
      exact Grants.unresolved exhausted words 0
    -- At least one level is left, and one is all that is wanted.
    · rename_i left
      refine .pure ⟨?_, iff_of_false Mentions.nil left⟩
      rw [Option.toList_some, Attribute.deepest_singleton]
      simp only [Attribute.chain, Projection.expansionDepth]
      omega
  | .expanded name fields, named => by
    obtain ⟨here, inside⟩ := Bool.and_eq_true_iff.mp named
    obtain ⟨words, rfl, accepted⟩ := exists_of_isTextThat here
    have converted (left : depth + 1 ≤ limit) := yields_convertFields identifies left fields inside
    unfold convertField
    rw [nameOf?_text (identifies words accepted), pure_bind]
    dsimp only
    split
    · rename_i exhausted
      exact Grants.unresolved exhausted words _
    -- This level is granted, and those inside are cut where one level less is left.
    · rename_i left
      refine .bind (converted (Nat.le_of_not_lt left)) fun attributes given ⟨granted, cut⟩ =>
        .pure ⟨?_, ?_⟩
      · rw [Option.toList_some, Attribute.deepest_singleton]
        simp only [Attribute.chain, Projection.expansionDepth, granted]
        omega
      · rw [List.append_nil, cut, Projection.expansionDepth]
        omega
  | .stray _, named => nomatch named
termination_by structural item => item

/-- Projections in a row resolve as much of the longest chain as the limit grants. -/
theorem yields_convertFields {limit depth : Nat}
    (identifies : ∀ name, accepts name = true → isName name = true) (within : depth ≤ limit) :
    (items : List Projection) → areNamed accepts items = true →
      (convertFields limit depth items).Yields fun attributes given =>
        Grants limit depth (Projection.deepest items) (Attribute.deepest attributes) given
  -- By induction on the items: the deepest chain among them is written, and a cut below any of them
  -- is told of.
  | [], _ => .pure (.none within (List.forall_mem_nil _))
  | item :: rest, named => by
    obtain ⟨here, later⟩ := Bool.and_eq_true_iff.mp named
    have first := yields_convertField identifies within item here
    have others := yields_convertFields identifies within rest later
    unfold convertFields
    refine .bind (yields_requireKey _) fun _ _ none_ => .bind first fun head given grants =>
      .bind others fun attributes given' grants' => .pure ⟨?_, ?_⟩
    · rw [Attribute.deepest_append, grants.granted_eq, grants'.granted_eq, Projection.deepest]
      omega
    · rw [none_, List.nil_append, List.append_nil, Mentions.append, grants.cut, grants'.cut,
        Projection.deepest]
      omega
termination_by structural items => items

end

end Chain

/-- Attributes are converted from the top, whether or not their keys can be told apart. -/
theorem yields_convertTop {accepts : String → Bool}
    (identifies : ∀ name, accepts name = true → isName name = true) (limit : Nat)
    {fields : List Projection} (named : areNamed accepts fields = true) :
    (convertTop limit fields).Yields fun attributes given =>
      Grants limit 0 (Projection.deepest fields) (Attribute.deepest attributes) given := by
  -- Only the keys are checked once more.
  refine .bind (yields_convertFields identifies (Nat.zero_le limit) fields named)
    fun attributes given grants => ?_
  split
  · exact .pure (by rwa [List.append_nil])
  · exact .refuse

/-- Choosing an order leaves notices about fields that are no paths. -/
theorem notesOnly_convertOrder (entries : List Value) :
    (convertOrder entries).NotesOnly [.invalidField] := by
  -- By induction on the entries, each of which may be dropped for its field.
  induction entries with
  | nil => exact .pure
  | cons entry rest ih =>
    have joined (clause : List (String × Direction)) :
        NotesOnly [.invalidField] (do return clause ++ (← convertOrder rest)) :=
      .bind ih fun _ => .pure
    have dropped (field : Value) : (convertOrder.drop field).NotesOnly [.invalidField] :=
      .bind .requireWritten fun _ => .bind (.degrade (by decide)) fun _ => .pure
    refine .bind .ofExcept fun field => ?_
    dsimp only
    split
    · split
      · exact .bind .ofExcept fun direction => joined _
      · exact .bind (dropped _) fun _ => joined _
    · exact .bind (dropped _) fun _ => joined _

/-- Choosing a slice leaves a notice about a cursor. -/
theorem notesOnly_convertSlice (settings : Settings) (query : Query) :
    (convertSlice settings query).NotesOnly [.cursorPagination] := by
  -- A page behind a cursor is told of, and is cut like any other.
  unfold convertSlice
  dsimp only
  split
  · exact .bind (.degrade (by decide)) fun _ => .bind .requireWritten fun _ => .pure
  · exact .bind .requireWritten fun _ => .pure

/-- The parameters of a statement leave notices about collisions. -/
theorem notesOnly_convertParameters (settings : Settings) (query : Query) :
    (convertParameters settings query).NotesOnly [.parameterCollision] :=
  Yields.looked fun _ => NotesOnly.bind (notesOnly_passThrough _ _ _ _ _) fun _ => .pure

/-- What a query wants resolved is granted up to the limit, and noted where the limit cuts it. -/
def Resolves (settings : Settings) (query : Query) (wanted granted : Nat) (given : List Notice) :
    Prop :=
  granted = min wanted settings.maxResolveDepth ∧
    (Mentions .resolveDepthClamped given ↔
      settings.maxResolveDepth < max query.resolve.levelCount.toNat wanted)

section Query

variable {accepts : String → Bool} (identifies : ∀ name, accepts name = true → isName name = true)
  {settings : Settings} {query : Query} {fields : List Projection}
  (reads : Projection.ReadsTo settings.depthLimit query.projection fields)
  (named : areNamed accepts fields = true)
include identifies reads named

/-- A projection resolves what it expands, and a request is clamped without resolving anything. -/
theorem yields_projectionOf : (projectionOf settings query).Yields fun projection given =>
    Resolves settings query (Projection.deepest fields)
      (Attribute.deepest (projection.getD [])) given := by
  refine .bind (Projection.yields_readTop _ _) fun fields' first ⟨reads', listed⟩ => ?_
  obtain rfl := reads.unique reads'
  refine .bind (settings.yields_resolveDepth query) fun depth second ⟨_, cut⟩ => ?_
  have unread : ¬ Mentions .resolveDepthClamped first := Mentions.absent listed (by decide)
  -- Whatever else is noted, only the request and the chain can be clamped.
  have ended (third : List Notice) (other : ¬ Mentions .resolveDepthClamped third) :
      Yields (if query.projection.isNull then pure none
        else return some (← convertTop settings.maxResolveDepth fields)) fun projection given =>
          Resolves settings query (Projection.deepest fields)
            (Attribute.deepest (projection.getD [])) (first ++ (second ++ (third ++ given))) := by
    split
    · rename_i none_
      obtain rfl := reads.unique (Projection.readsTo_of_isNull none_)
      refine .pure ⟨(Nat.zero_min _).symm, ?_⟩
      simp [Mentions.append, unread, cut, other, Projection.deepest]
    · refine .bind (yields_convertTop identifies _ named) fun attributes given grants =>
        .pure ⟨grants.granted_eq, ?_⟩
      simp only [Mentions.append, unread, cut, other, grants.cut, Mentions.nil, false_or, or_false]
      omega
  dsimp only
  split
  · exact .noted (ended [_] fun ⟨_, member, same⟩ => by simp_all)
  · exact ended [] Mentions.nil

/-- The parts behind a filter resolve what the projection does. -/
theorem yields_finish (filter : List Expression) :
    (finish settings query filter).Yields fun result given =>
      Resolves settings query (Projection.deepest fields)
        (Attribute.deepest (result.1.projection.getD [])) given := by
  -- The depth is clamped while the projection is converted; no other step leaves that notice.
  refine .bind (notesOnly_convertOrder query.order) fun order first listed => ?_
  refine .bind (notesOnly_convertSlice settings query) fun slice second listed₂ => ?_
  refine .bind (yields_projectionOf identifies reads named) fun projection third
    ⟨granted, cut⟩ => ?_
  refine .bind (notesOnly_convertParameters settings query) fun parameters last listed₃ => ?_
  refine .pure ⟨granted, ?_⟩
  have others : ¬ Mentions .resolveDepthClamped first ∧ ¬ Mentions .resolveDepthClamped second ∧
      ¬ Mentions .resolveDepthClamped last :=
    ⟨Mentions.absent listed (by decide), Mentions.absent listed₂ (by decide),
      Mentions.absent listed₃ (by decide)⟩
  simp only [List.append_nil, Mentions.append, others, false_or, or_false, cut]

/-- A statement resolves what the limit grants of the projection, and notes what it does not. -/
theorem resolves_of_compile {conditions : List Condition} {compiled : Compiled Statement Value}
    (ran : compile settings query conditions = .ok compiled) :
    Resolves settings query (Projection.deepest fields)
      (Attribute.deepest (compiled.query.projection.getD [])) compiled.notices := by
  obtain ⟨last, gave, listed, -⟩ := Compiled.ok_of_run (run_of_compile ran).2
  rw [convertQuery_eq] at gave
  obtain ⟨filter, after, filtered, ended⟩ := Compile.ok_of_bind gave
  -- The notices about the filter are about its failing nodes.
  obtain ⟨literals, lost, rfl, noted, -⟩ :=
    (ensures_filterParts_pruned settings query conditions).of_run (Except.ok.inj filtered)
  have unfiltered : ¬ Mentions .resolveDepthClamped lost :=
    Mentions.absent noted.reasons (by decide)
  obtain ⟨given, same, granted, cut⟩ := yields_finish identifies reads named filter _ _ _ ended
  have before : (Context.empty.extend literals lost).notices = lost := rfl
  refine ⟨granted, ?_⟩
  rw [listed, same, before, Mentions.append, ← cut, or_iff_right unfiltered]

end Query

/-- The projection of a compiled statement delivers the fields that the query's is read to. -/
theorem delivers_of_compile {settings : Settings} {query : Query} {conditions : List Condition}
    {compiled : Compiled Statement Value}
    (ran : compile settings query conditions = .ok compiled) :
    ∃ bindings, ProjectionDelivers settings query bindings compiled.query.projection := by
  -- The projection is the fourth part of the statement, and what comes behind it binds nothing.
  obtain ⟨last, gave, -⟩ := Compiled.ok_of_run (run_of_compile ran).2
  rw [convertQuery_eq] at gave
  obtain ⟨filter, _, -, gave⟩ := Compile.ok_of_bind gave
  obtain ⟨order, _, -, gave⟩ := Compile.ok_of_bind gave
  obtain ⟨slice, _, -, gave⟩ := Compile.ok_of_bind gave
  obtain ⟨projection, after, projected, gave⟩ := Compile.ok_of_bind gave
  obtain ⟨parameters, _, -, gave⟩ := Compile.ok_of_bind gave
  have shown : compiled.query = ⟨filter, order, slice, projection⟩ :=
    (Prod.mk.inj (Prod.mk.inj (Except.ok.inj gave)).1).1.symm
  obtain ⟨-, delivers⟩ := settles_projectionOf settings query _ _ _ projected
  rw [shown]
  exact ⟨after.bindings, delivers _ (List.prefix_refl _)⟩

/-- A projection that is there has been read and converted where a query is compiled. -/
theorem reads_of_compile {settings : Settings} {query : Query} {conditions : List Condition}
    {compiled : Compiled Statement Value}
    (ran : compile settings query conditions = .ok compiled)
    (there : query.projection.isNull = false) : ∃ fields attributes,
      Projection.ReadsTo settings.depthLimit query.projection fields ∧
        compiled.query.projection = some attributes := by
  -- The projection was delivered from fields, and those were read.
  obtain ⟨bindings, delivers⟩ := delivers_of_compile ran
  rw [ProjectionDelivers, there, if_neg Bool.false_ne_true] at delivers
  obtain ⟨fields, notices, attributes, gives, -, some_⟩ := delivers
  exact ⟨fields, attributes, ⟨_, gives .empty⟩, some_⟩

/--
The attributes of a compiled statement can be read back where its fields are named by texts, and
their keys are names of fields, in their order.
-/
theorem legible_of_compile {settings : Settings} {query : Query} {conditions : List Condition}
    {compiled : Compiled Statement Value} {accepts : String → Bool} {fields : List Projection}
    {attributes : List Attribute}
    (ran : compile settings query conditions = .ok compiled)
    (reads : Projection.ReadsTo settings.depthLimit query.projection fields)
    (named : areNamed accepts fields = true) (some_ : compiled.query.projection = some attributes) :
    (∀ head ∈ attributes, head.WellFormed) ∧ (∀ head ∈ attributes, head.HasTextKeys) ∧
      attributes.map Attribute.key <+ fields.map Projection.name := by
  -- There are attributes only where there is a projection, and its fields are the ones that were
  -- read.
  obtain ⟨bindings, delivers⟩ := delivers_of_compile ran
  unfold ProjectionDelivers at delivers
  split at delivers
  · rw [delivers] at some_
    cases some_
  · obtain ⟨fields', notices, attributes', gives, delivered, same⟩ := delivers
    obtain rfl := Option.some.inj (some_.symm.trans same)
    obtain rfl := reads.unique ⟨_, gives .empty⟩
    obtain ⟨keyed, sublist⟩ := delivered.keyed named
    exact ⟨fun head member => (delivered.isBound head member).1, keyed, sublist⟩

end ContentQuery.Groq
