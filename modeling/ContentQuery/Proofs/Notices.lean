import ContentQuery.Proofs.Compilation

/-! What follows the filter of a query looks at no notice that was given about it. -/

namespace ContentQuery

namespace Projection

/-- A property that all steps of reading a projection have, and that is kept in a row of them. -/
structure Closed (holds : {α : Type} → Compile α → Prop) : Prop where
  pure {α : Type} (result : α) : holds (Pure.pure result : Compile α)
  bind {α β : Type} {compile : Compile α} {next : α → Compile β} :
    holds compile → (∀ result, holds (next result)) → holds (compile >>= next)
  refuse {α : Type} (fault : Fault) : holds (Compile.refuse fault : Compile α)
  ofExcept {α : Type} (read : Except Fault α) : holds (Compile.ofExcept read)
  noted (message : String) (field operator : Value) :
    holds (Compile.degrade .invalidProjection message field operator)

section Closed

variable {holds : {α : Type} → Compile α → Prop} (closed : Closed holds)
include closed

/-- A closed property holds of asking for what can be written. -/
theorem holds_requireWritten (writable : Bool) : holds (Compile.requireWritten writable) := by
  cases writable with
  | true => exact closed.pure ()
  | false => exact closed.refuse .unwritable

/-- It holds of passing over a key. -/
theorem holds_invalidKey (key : Value) : holds (invalidKey key) :=
  closed.bind (holds_requireWritten closed _) fun _ =>
    closed.bind (closed.noted _ _ _) fun _ => closed.pure none

mutual

/-- It holds of reading a projection. -/
theorem holds_read (limit : DepthLimit) (depth : Nat) (position : Position) :
    (value : Value) → holds (read limit depth position value)
  -- Only a map is read into; anything else is either vacant or out of place.
  | .map entries => by
    unfold read
    split
    · exact closed.pure _
    · exact closed.bind (closed.ofExcept _) fun _ => holds_readEntries limit depth position entries
  | .null | .bool _ | .int _ | .float _ | .text _ | .bytes _ | .uuid _ | .moment _ | .date _
  | .time _ | .list _ | .tuple _ | .set _ _ | .operator _ | .member _ | .foreign
  | .node _ _ _ _ _ _ | .sortKey _ | .projection _ => by
    unfold read
    split
    · exact closed.pure _
    · exact closed.bind (closed.ofExcept _) fun _ => closed.refuse _
termination_by structural value => value

/-- It holds of reading the entries of a projection. -/
theorem holds_readEntries (limit : DepthLimit) (depth : Nat) (position : Position) :
    (entries : List (Value × Value)) → holds (readEntries limit depth position entries)
  | [] => closed.pure _
  | (key, value) :: rest => by
    have restHolds := holds_readEntries limit depth position rest
    -- Whatever a key stands for, the entries behind it are read in the same way.
    have joined (field : Option Projection) :
        holds (do return field.toList ++ (← readEntries limit depth position rest)) :=
      closed.bind restHolds fun _ => closed.pure _
    unfold readEntries
    dsimp only
    split
    · split
      · exact closed.bind (holds_invalidKey closed _) joined
      · exact closed.bind (holds_readField limit depth position _ value) joined
    · exact closed.bind (holds_invalidKey closed _) joined
termination_by structural entries => entries

/-- It holds of reading one entry of a projection. -/
theorem holds_readField (limit : DepthLimit) (depth : Nat) (position : Position) (name : String) :
    (value : Value) → holds (readField limit depth position name value)
  | .projection _ | .text _ => closed.pure _
  | .bool true | .bool false => closed.pure _
  | .map entries => by
    -- A map is a projection of its own or an expansion, and either is read one level down.
    have entriesHold := holds_readEntries limit (depth + 1) (position.down (.name name)) entries
    have expansionHolds :=
      holds_readExpansion limit (depth + 1) (position.down (.name name)) entries
    unfold readField
    split
    · exact closed.bind (holds_requireWritten closed _) fun _ => closed.pure _
    · split
      · split
        · exact closed.pure _
        · split
          · exact closed.pure _
          · exact closed.bind expansionHolds fun _ => closed.pure _
      · split
        · exact closed.pure _
        · exact closed.bind (closed.ofExcept _) fun _ =>
            closed.bind entriesHold fun _ => closed.pure _
  | .null | .int _ | .float _ | .bytes _ | .uuid _ | .moment _ | .date _ | .time _ | .list _
  | .tuple _ | .set _ _ | .operator _ | .member _ | .foreign | .node _ _ _ _ _ _
  | .sortKey _ =>
    closed.bind (holds_requireWritten closed _) fun _ =>
      closed.bind (closed.noted _ _ _) fun _ => closed.pure _
termination_by structural value => value

/-- It holds of reading the projection of an expansion. -/
theorem holds_readExpansion (limit : DepthLimit) (depth : Nat) (position : Position) :
    (entries : List (Value × Value)) → holds (readExpansion limit depth position entries)
  | [] => closed.pure _
  | (key, value) :: rest => by
    have valueHolds := holds_read limit depth position value
    have restHolds := holds_readExpansion limit depth position rest
    -- The first entry under the key for fields is the one that counts.
    unfold readExpansion
    split
    · exact valueHolds
    · exact restHolds
termination_by structural entries => entries

end

end Closed

/-- Looking at nothing that came before is a closed property. -/
theorem closed_blind : Closed Compile.Blind where
  pure _ := .pure
  bind := .bind
  refuse _ := .refuse
  ofExcept _ := .ofExcept
  noted _ _ _ := .degrade

/-- A limit on nesting leaves no notice. -/
theorem blind_checkDepth (limit : DepthLimit) (depth : Nat) (position : Position) :
    (checkDepth limit depth position).Blind :=
  .ofExcept

/-- An unknown key leaves a notice behind the others. -/
theorem blind_invalidKey (key : Value) : (invalidKey key).Blind :=
  holds_invalidKey closed_blind key

/-- Reading a projection looks at nothing before it. -/
theorem blind_read (limit : DepthLimit) (depth : Nat) (position : Position) (value : Value) :
    (read limit depth position value).Blind :=
  holds_read closed_blind limit depth position value

/-- Reading one entry of a projection looks at nothing before it. -/
theorem blind_readField (limit : DepthLimit) (depth : Nat) (position : Position) (name : String)
    (value : Value) : (readField limit depth position name value).Blind :=
  holds_readField closed_blind limit depth position name value

end Projection

/-- Granting a depth looks at nothing before it. -/
theorem Settings.blind_resolveDepth (settings : Settings) (query : Query) :
    (settings.resolveDepth query).Blind := by
  -- The depth hangs on the settings and the query, never on what was bound.
  unfold Settings.resolveDepth
  dsimp only
  split
  · exact .bind .requireWritten fun _ => .bind .degrade fun _ => .pure
  · exact .pure

/-- Neither does granting the depth of a projection. -/
theorem Settings.blind_resolveWith (settings : Settings) (query : Query) (expansions : Nat) :
    (settings.resolveWith query expansions).Blind := by
  -- A depth without an expansion is told of, and is given nevertheless.
  unfold Settings.resolveWith
  refine .bind (settings.blind_resolveDepth query) fun _ => ?_
  split
  · exact .pure
  · split
    · exact .bind .degrade fun _ => .pure
    · exact .pure

/-- The notices that a compilation leaves; one that is refused leaves none. -/
def Compile.noticesOf {α : Type} (compile : Compile α) : List Notice :=
  match compile .empty with
  | .ok (_, after) => after.notices
  | .error _ => []

/-- What a compilation gives includes the notices that it leaves. -/
theorem Compile.Gives.noticesOf {α : Type} {compile : Compile α} {result : α}
    {notices : List Notice} (gives : compile.Gives result notices) :
    compile.noticesOf = notices := by
  rw [Compile.noticesOf, gives .empty]
  exact List.nil_append notices

namespace Compiled

variable {Native Argument Filter : Type} {target : Target} {settings : Settings}

/-- What a run leads to is what the compilation gives, unless a strict compiler refuses it. -/
theorem ok_of_run {compile : Compile (Native × OrderedMap Value Argument)}
    {compiled : Compiled Native Argument} (ran : run target settings compile = .ok compiled) :
    ∃ after, compile .empty = .ok ((compiled.query, compiled.parameters), after) ∧
      compiled.notices = after.notices ∧
        (settings.strict.isTruthy && !after.notices.isEmpty) = false := by
  -- A strict run refuses as soon as there is a notice; this one passed.
  unfold run at ran
  obtain ⟨⟨⟨query, parameters⟩, after⟩, gave, ran⟩ := ok_of_bind ran
  dsimp only at ran
  split at ran
  · exact nomatch ran
  · rename_i passes
    cases ran
    exact ⟨after, gave, rfl, by simpa using passes⟩

/-- What a compilation gives is what its run leads to, unless a strict compiler refuses it. -/
theorem run_of_ok {compile : Compile (Native × OrderedMap Value Argument)} {query : Native}
    {parameters : OrderedMap Value Argument} {after : Context}
    (gave : compile .empty = .ok ((query, parameters), after))
    (passes : (settings.strict.isTruthy && !after.notices.isEmpty) = false) :
    run target settings compile = .ok ⟨query, parameters, after.notices⟩ := by
  unfold run
  rw [gave]
  simp only [bind, Except.bind, passes]
  rfl

section Finished

variable {first : Compile Filter} {next : Filter → Compile (Native × OrderedMap Value Argument)}
  {compiled : Compiled Native Argument}

/-- A run converts the filter first, and what follows leaves the notices about it in front. -/
theorem of_run (post : Filter → Native → OrderedMap Value Argument → Prop)
    (ran : run target settings (first >>= next) = .ok compiled)
    (steady : ∀ filter, (next filter).Steady fun result => post filter result.1 result.2) :
    ∃ filter after others, first .empty = .ok (filter, after) ∧
      post filter compiled.query compiled.parameters ∧
        compiled.notices = after.notices ++ others ∧ ∃ bindings, ∀ noted,
          next filter ⟨after.bindings, noted⟩ =
            .ok ((compiled.query, compiled.parameters), ⟨bindings, noted ++ others⟩) := by
  obtain ⟨last, gave, listed, -⟩ := ok_of_run ran
  obtain ⟨filter, after, converted, ended⟩ := Compile.ok_of_bind gave
  -- What follows is the same whatever was noted before it, and so after what was.
  obtain ⟨met, others, same, gives⟩ := (steady filter).of_run ended
  exact ⟨filter, after, others, converted, met, listed.trans same, last.bindings, gives⟩

/-- Where the same filter is converted in silence, the notices about it are what is missing. -/
theorem run_silenced {silenced : Compile Filter} {settings' : Settings} {filter : Filter}
    {bindings : List Value} {lost : List Notice}
    (ran : run target settings (first >>= next) = .ok compiled)
    (steady : ∀ filter, (next filter).Steady fun _ => True)
    (lenient : settings'.strict.isTruthy = false)
    (gives : first .empty = .ok (filter, ⟨bindings, lost⟩))
    (silent : silenced .empty = .ok (filter, ⟨bindings, []⟩)) :
    ∃ others, compiled.notices = lost ++ others ∧
      run target settings' (silenced >>= next) = .ok { compiled with notices := others } := by
  -- What follows the filter adds its own notices behind, whichever stand before them.
  obtain ⟨filter', after, others, converted, -, listed, bound, follows⟩ :=
    of_run (fun _ _ _ => True) ran steady
  obtain ⟨rfl, rfl⟩ := Prod.mk.inj (Except.ok.inj (gives.symm.trans converted))
  refine ⟨others, listed, ?_⟩
  have gave : (silenced >>= next) .empty =
      .ok ((compiled.query, compiled.parameters), ⟨bound, [] ++ others⟩) := by
    rw [Compile.bind_apply, silent]
    exact follows []
  exact run_of_ok gave (by rw [lenient, Bool.false_and])

end Finished

end Compiled

/-- A statement is what its compilation runs to, and its literals failed for their forms only. -/
theorem Groq.run_of_compile {settings : Settings} {query : Query} {conditions : List Condition}
    {statement : Compiled Groq.Statement Value}
    (ran : Groq.compile settings query conditions = .ok statement) :
    Groq.canConvertAll (conditions ++ settings.globalFilter.conditionList) = true ∧
      Compiled.run .groq settings (Groq.convertQuery settings query conditions) =
        .ok statement := by
  -- What cannot be converted at all is refused before anything is run.
  unfold Groq.compile at ran
  split at ran
  · exact nomatch ran
  · rename_i passes
    exact ⟨by simpa using passes, ran⟩

/-- What a compilation runs to is a statement where no literal fails for its length. -/
theorem Groq.compile_of_run {settings : Settings} {query : Query} {conditions : List Condition}
    (forms : Groq.canConvertAll (conditions ++ settings.globalFilter.conditionList) = true) :
    Groq.compile settings query conditions =
      Compiled.run .groq settings (Groq.convertQuery settings query conditions) := by
  unfold Groq.compile
  rw [forms]
  rfl

/-- A request is what its compilation runs to, and its filter can be written. -/
theorem Contentful.run_of_compile {settings : Settings} {everyLocale : Value} {query : Query}
    {conditions : List Condition} {request : Contentful.Request}
    (ran : Contentful.compile settings everyLocale query conditions = .ok request) :
    Compiled.run .contentful settings
        (Contentful.convertQuery settings everyLocale query conditions) = .ok request ∧
      request.query.entries.all (·.2.isWritable) = true :=
  ok_of_tested ran

/-- What a compilation runs to is a request where its filter can be written. -/
theorem Contentful.compile_of_run {settings : Settings} {everyLocale : Value} {query : Query}
    {conditions : List Condition} {request : Contentful.Request}
    (ran : Compiled.run .contentful settings
      (Contentful.convertQuery settings everyLocale query conditions) = .ok request)
    (writable : request.query.entries.all (·.2.isWritable) = true) :
    Contentful.compile settings everyLocale query conditions = .ok request :=
  bind_ok ran (if_pos writable)

/-- A scroll is what its compilation runs to, and its filter can be written. -/
theorem Qdrant.run_of_compile {configuration : Qdrant.Configuration} {query : Query}
    {conditions : List Condition} {scroll : Qdrant.Scroll}
    (ran : Qdrant.compile configuration query conditions = .ok scroll) :
    Compiled.run .qdrant configuration.settings
        (Qdrant.convertQuery configuration query conditions) = .ok scroll ∧
      scroll.query.all Qdrant.Clause.isWritable = true :=
  ok_of_tested ran

/-- What a compilation runs to is a scroll where its filter can be written. -/
theorem Qdrant.compile_of_run {configuration : Qdrant.Configuration} {query : Query}
    {conditions : List Condition} {scroll : Qdrant.Scroll}
    (ran : Compiled.run .qdrant configuration.settings
      (Qdrant.convertQuery configuration query conditions) = .ok scroll)
    (writable : scroll.query.all Qdrant.Clause.isWritable = true) :
    Qdrant.compile configuration query conditions = .ok scroll :=
  bind_ok ran (if_pos writable)

end ContentQuery
