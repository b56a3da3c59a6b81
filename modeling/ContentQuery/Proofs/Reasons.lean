import ContentQuery.Proofs.PassThrough
import ContentQuery.Proofs.Pruning

/-! The reasons for which the parts of a compilation may leave notices. -/

namespace ContentQuery

/-- Whether one of several notices is given for a reason. -/
def Mentions (reason : Reason) (notices : List Notice) : Prop :=
  ∃ notice ∈ notices, notice.reason = reason

namespace Mentions

variable {reason : Reason} {first second : List Notice}

theorem nil : ¬ Mentions reason [] :=
  fun ⟨_, member, _⟩ => nomatch member

/-- Notices mention the reason of the first of them, and what the others mention. -/
theorem cons {notice : Notice} :
    Mentions reason (notice :: first) ↔ notice.reason = reason ∨ Mentions reason first := by
  simp [Mentions]

/-- Notices that are left for other reasons do not mention a reason. -/
theorem absent {reasons : List Reason} (listed : ∀ notice ∈ first, notice.reason ∈ reasons)
    (other : reason ∉ reasons) : ¬ Mentions reason first :=
  fun ⟨notice, member, same⟩ => other (same ▸ listed notice member)

/-- Notices in two rows mention what one of the rows mentions. -/
theorem append : Mentions reason (first ++ second) ↔
    Mentions reason first ∨ Mentions reason second := by
  simp [Mentions, or_and_right, exists_or]

end Mentions

namespace Compile

variable {α β : Type}

/--
Whatever a compilation gives meets a condition, together with the notices that it puts behind those
it has found.
-/
def Yields (compile : Compile α) (post : α → List Notice → Prop) : Prop :=
  ∀ context result after, compile context = .ok (result, after) →
    ∃ given, after.notices = context.notices ++ given ∧ post result given

namespace Yields

variable {post : α → List Notice → Prop} {final : β → List Notice → Prop}

/-- A weaker condition is met as well. -/
theorem mono {weaker : α → List Notice → Prop} {compile : Compile α} (yields : compile.Yields post)
    (implies : ∀ result given, post result given → weaker result given) :
    compile.Yields weaker := by
  intro context result after ran
  obtain ⟨given, listed, met⟩ := yields context result after ran
  exact ⟨given, listed, implies _ _ met⟩

/-- A result that is given at once leaves no notice. -/
theorem pure {result : α} (met : post result []) : Yields (pure result) post := by
  intro context _ _ ran
  cases ran
  exact ⟨[], (List.append_nil _).symm, met⟩

/-- The notices of a second compilation stand behind those of the first. -/
theorem bind {compile : Compile α} {next : α → Compile β} (first : compile.Yields post)
    (then_ : ∀ result given, post result given →
      (next result).Yields fun result' given' => final result' (given ++ given')) :
    (compile >>= next).Yields final := by
  intro context result' after ran
  -- A run of both is a run of each, the second from the context where the first ends.
  obtain ⟨result, between, began, ended⟩ := Compile.ok_of_bind ran
  obtain ⟨given, listed, met⟩ := first _ _ _ began
  obtain ⟨given', listed', met'⟩ := then_ result given met _ _ _ ended
  exact ⟨given ++ given', by rw [listed', listed, List.append_assoc], met'⟩

/-- A notice is all that a degradation leaves. -/
theorem degrade {reason : Reason} {message : String} {field operator : Value}
    {post : Unit → List Notice → Prop} (met : post () [⟨reason, .text message, field, operator⟩]) :
    (Compile.degrade reason message field operator).Yields post := by
  intro context _ _ ran
  cases ran
  exact ⟨_, rfl, met⟩

/-- A notice stands in front of those that what follows it leaves. -/
theorem noted {reason : Reason} {message : String} {field operator : Value} {next : Compile β}
    (yields : next.Yields fun result given =>
      final result (⟨reason, .text message, field, operator⟩ :: given)) :
    Yields (do Compile.degrade reason message field operator; next) final := by
  -- The notice is known exactly, so that what follows it is told of no other.
  have first : (Compile.degrade reason message field operator).Yields fun _ given =>
      given = [⟨reason, .text message, field, operator⟩] := .degrade rfl
  refine .bind first fun _ given alone => ?_
  subst alone
  exact yields

/-- A refusal gives nothing. -/
theorem refuse {fault : Fault} : (Compile.refuse fault : Compile α).Yields post :=
  fun _ _ _ ran => nomatch ran

/-- Asking for what can be written leaves no notice. -/
theorem written {writable : Bool} {next : Compile β} (yields : next.Yields final) :
    Yields (do Compile.requireWritten writable; next) final := by
  intro context result after ran
  exact yields context result after (Compile.ok_of_requireWritten ran).2

/-- A reading that may fail leaves no notice. -/
theorem ofExcept {read : Except Fault α} (met : ∀ result, read = .ok result → post result []) :
    (Compile.ofExcept read).Yields post := by
  intro context result after ran
  obtain ⟨found, there, same⟩ := exists_of_map ran
  cases same
  exact ⟨[], (List.append_nil _).symm, met _ there⟩

/-- A conversion gives what it ensures from every slot on. -/
theorem lift {convert : Convert α}
    (ensures : ∀ slot, convert.Ensures slot fun result _ notices => post result notices) :
    convert.lift.Yields post := by
  intro context result after ran
  obtain ⟨literals, given, rfl, met⟩ := (ensures _).of_run (Except.ok.inj ran)
  exact ⟨given, rfl, met⟩

/-- Two conditions on what a run gives are met together. -/
theorem and {other : α → List Notice → Prop} {compile : Compile α} (yields : compile.Yields post)
    (yields' : compile.Yields other) :
    compile.Yields fun result given => post result given ∧ other result given := by
  intro context result after ran
  obtain ⟨given, listed, met⟩ := yields _ _ _ ran
  obtain ⟨given', listed', met'⟩ := yields' _ _ _ ran
  -- Both speak of one run, whose notices behind the given ones are the same.
  obtain rfl := List.append_cancel_left (listed.symm.trans listed')
  exact ⟨given, listed, met, met'⟩

/-- Looking at the context leaves no notice. -/
theorem looked {next : Context → Compile β} (yields : ∀ context, (next context).Yields final) :
    Yields (get >>= next) final := by
  intro context result after ran
  exact yields context context result after ran

end Yields

/-- What a compilation ensures in every context is what its runs yield. -/
theorem Ensures.yields {compile : Compile α} {post : α → List Notice → Prop}
    (ensures : compile.Ensures post) : compile.Yields post := by
  intro context result after ran
  obtain ⟨given, rfl, -, met⟩ := ensures.of_run ran
  exact ⟨given, rfl, met⟩

/-- A compilation that leaves notices for some reasons only. -/
def NotesOnly (reasons : List Reason) (compile : Compile α) : Prop :=
  compile.Yields fun _ given => ∀ notice ∈ given, notice.reason ∈ reasons

namespace NotesOnly

variable {reasons : List Reason}

/-- A result that is given at once leaves no notice at all. -/
theorem pure {result : α} : NotesOnly reasons (pure result) :=
  Yields.pure nofun

/-- Two compilations in a row leave the notices of both. -/
theorem bind {compile : Compile α} {next : α → Compile β} (first : compile.NotesOnly reasons)
    (then_ : ∀ result, (next result).NotesOnly reasons) : (compile >>= next).NotesOnly reasons :=
  Yields.bind first fun result _ listed => (then_ result).mono fun _ _ listed' =>
    List.forall_mem_append.mpr ⟨listed, listed'⟩

/-- A notice is left for its reason. -/
theorem degrade {reason : Reason} {message : String} {field operator : Value}
    (listed : reason ∈ reasons) :
    (Compile.degrade reason message field operator).NotesOnly reasons :=
  Yields.degrade (List.forall_mem_singleton.mpr listed)

/-- A refusal leaves no notice. -/
theorem refuse {fault : Fault} : (Compile.refuse fault : Compile α).NotesOnly reasons :=
  Yields.refuse

/-- Asking for what can be written leaves no notice. -/
theorem requireWritten {writable : Bool} :
    (Compile.requireWritten writable).NotesOnly reasons :=
  (Ensures.requireWritten fun _ => List.forall_mem_nil _).yields

/-- A leaf that is dropped for its literal leaves a notice about the literal. -/
theorem dropInvalidValue {field : Value} {operator : Operator} {fault : FormatFault}
    (listed : .invalidValue ∈ reasons) :
    (ContentQuery.dropInvalidValue field operator fault).NotesOnly reasons :=
  (Ensures.dropInvalidValue fun _ _ => fun _ member => by
    obtain rfl := List.mem_singleton.mp member
    exact listed).yields

/-- A reading leaves no notice. -/
theorem ofExcept {read : Except Fault α} : (Compile.ofExcept read).NotesOnly reasons :=
  Yields.ofExcept fun _ _ => nofun

/-- Notices for some reasons are notices for more. -/
theorem mono {more : List Reason} {compile : Compile α} (notes : compile.NotesOnly reasons)
    (within : reasons ⊆ more) : compile.NotesOnly more :=
  Yields.mono notes fun _ _ listed notice member => within (listed notice member)

end NotesOnly

end Compile

/-- The reasons for which a part of a filter is given up. -/
def filterReasons : List Reason :=
  [.unsupportedOperator, .invalidField, .invalidValue, .emptyOr, .matchNothing, .multiType,
    .orAcrossFields, .complexNot, .keyCollision]

/-- A notice that stands for a failing node gives one of these reasons. -/
theorem Noted.reasons {nodes : List Condition} {notices : List Notice}
    (noted : Noted nodes notices) : ∀ notice ∈ notices, notice.reason ∈ filterReasons := by
  induction noted with
  | nil => exact nofun
  | cons names _ ih =>
    refine List.forall_mem_cons.mpr ⟨?_, ih⟩
    rename_i node notice _ _ _
    -- A leaf fails for one of three reasons, a disjunction and a negation for one each.
    cases node with
    | leaf field comparison value =>
      have listed := names.2.2
      simp only [List.mem_cons, List.not_mem_nil, or_false] at listed
      rcases listed with same | same | same <;> rw [same] <;> decide
    | all conditions => exact names.elim
    | any conditions => rw [names.1]; decide
    | not condition => rw [names.1]; decide

/-- Passing parameters through leaves notices about collisions only. -/
theorem notesOnly_passThrough {Argument : Type} (taken : Value → Bool) (what : String)
    (wrap : Value → Argument) (entries : List (Value × Value))
    (parameters : OrderedMap Value Argument) :
    (passThrough taken what wrap entries parameters).NotesOnly [.parameterCollision] := by
  -- By induction on the entries; one that collides is all there is to tell.
  induction entries generalizing parameters with
  | nil => exact .pure
  | cons entry rest ih =>
    unfold passThrough
    split
    · exact .bind (.degrade (by decide)) fun _ => ih _
    · exact ih _

/-- Reading a projection leaves notices about its entries only. -/
theorem Projection.notesOnly_readTop (limit : DepthLimit) (value : Value) :
    (readTop limit value).NotesOnly [.invalidProjection] := by
  -- Every way in which a reading is put together keeps to the one reason.
  have closed : Closed (Compile.NotesOnly [.invalidProjection]) :=
    { pure _ := .pure
      bind := .bind
      refuse _ := .refuse
      ofExcept _ := .ofExcept
      noted _ _ _ := .degrade (by decide) }
  exact holds_read closed limit 1 (.top "projection") value

/-- The fields that a projection is read to, if it is read at all. -/
def Projection.ReadsTo (limit : DepthLimit) (value : Value) (fields : List Projection) : Prop :=
  ∃ after, readTop limit value .empty = .ok (fields, after)

/-- A projection is read to the same fields wherever it is read. -/
theorem Projection.yields_readTop (limit : DepthLimit) (value : Value) :
    (readTop limit value).Yields fun fields given =>
      ReadsTo limit value fields ∧ ∀ notice ∈ given, notice.reason ∈ [.invalidProjection] := by
  have same : (readTop limit value).Yields fun fields _ => ReadsTo limit value fields := by
    intro context fields after ran
    -- A reading does not look at its context, so that it could have started in an empty one.
    obtain ⟨given, rfl, gives, -⟩ := (blind_read limit 1 (.top "projection") value).of_run ran
    exact ⟨given, rfl, _, gives .empty⟩
  exact same.and (notesOnly_readTop limit value)

/-- A projection that is null is read to no fields. -/
theorem Projection.readsTo_of_isNull {limit : DepthLimit} {value : Value}
    (none_ : value.isNull = true) : ReadsTo limit value [] := by
  cases value <;> first | exact ⟨_, rfl⟩ | exact nomatch none_

/-- It is read to one list of fields only. -/
theorem Projection.ReadsTo.unique {limit : DepthLimit} {value : Value}
    {fields fields' : List Projection} (reads : ReadsTo limit value fields)
    (reads' : ReadsTo limit value fields') : fields = fields' := by
  obtain ⟨_, ran⟩ := reads
  obtain ⟨_, ran'⟩ := reads'
  exact (Prod.mk.inj (Except.ok.inj (ran.symm.trans ran'))).1

/-- What is measured of fields is the longest chain of expansions in them. -/
theorem Projection.deepest_of_measure {fields : List Projection} {levels : Nat}
    (measured : measure fields = .ok levels) : levels = deepest fields := by
  unfold measure at measured
  split at measured
  · exact (Except.ok.inj measured).symm
  · exact nomatch measured

/-- Measuring fields gives their longest chain of expansions, and leaves no notice. -/
theorem Projection.yields_measure (fields : List Projection) :
    (Compile.ofExcept (measure fields)).Yields fun levels given =>
      levels = deepest fields ∧ given = [] :=
  .ofExcept fun _ there => ⟨deepest_of_measure there, rfl⟩

namespace Settings

variable (settings : Settings) (query : Query)

/-- A request is granted up to the limit, and is noted exactly where the limit cuts it. -/
theorem yields_resolveDepth :
    (settings.resolveDepth query).Yields fun depth given =>
      depth = min query.resolve.levelCount.toNat settings.maxResolveDepth ∧
        (Mentions .resolveDepthClamped given ↔
          settings.maxResolveDepth < query.resolve.levelCount.toNat) := by
  -- A depth above the limit is cut and told of, and any other is given as it is.
  unfold resolveDepth
  dsimp only
  split
  · -- A limit is no negative number, so that a request above it is none either.
    refine .written (.noted (.pure ⟨?_, iff_of_true (Mentions.cons.mpr (Or.inl rfl)) ?_⟩)) <;>
      omega
  · exact .pure ⟨by omega, iff_of_false Mentions.nil (by omega)⟩

/-- A request and expansions are granted up to the limit, and noted where the limit cuts either. -/
theorem yields_resolveWith (expansions : Nat) :
    (settings.resolveWith query expansions).Yields fun depth given =>
      depth = min (max query.resolve.levelCount.toNat expansions) settings.maxResolveDepth ∧
        (Mentions .resolveDepthClamped given ↔
          settings.maxResolveDepth < max query.resolve.levelCount.toNat expansions) := by
  -- Expansions only count where they go beyond what is granted of the request.
  refine .bind (settings.yields_resolveDepth query) fun depth given ⟨granted, cut⟩ => ?_
  split
  · refine .pure ⟨by omega, ?_⟩
    rw [List.append_nil, cut]
    omega
  · split
    · refine .noted (.pure ⟨by omega, iff_of_true ?_ (by omega)⟩)
      -- Whether or not the request was cut before, the expansions are cut here.
      exact Mentions.append.mpr (Or.inr (Mentions.cons.mpr (Or.inl rfl)))
    · refine .pure ⟨by omega, ?_⟩
      rw [List.append_nil, cut]
      omega

/-- Granting a request leaves notices about the depth only. -/
theorem notesOnly_resolveDepth :
    (settings.resolveDepth query).NotesOnly [.resolveDepthClamped] := by
  -- There is one notice at most.
  unfold resolveDepth
  dsimp only
  split
  · exact .bind .requireWritten fun _ => .bind (.degrade (by decide)) fun _ => .pure
  · exact .pure

/-- Granting a request and expansions leaves notices about the depth only. -/
theorem notesOnly_resolveWith (expansions : Nat) :
    (settings.resolveWith query expansions).NotesOnly [.resolveDepthClamped] := by
  -- What is resolved without being asked for is cut with the same notice.
  refine .bind (settings.notesOnly_resolveDepth query) fun depth => ?_
  split
  · exact .pure
  · split
    · exact .bind (.degrade (by decide)) fun _ => .pure
    · exact .pure

end Settings

end ContentQuery
