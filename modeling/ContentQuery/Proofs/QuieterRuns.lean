import ContentQuery.Proofs.Notices

/-! A run beside another that goes at least as far, with no notice that the other does not leave. -/

namespace ContentQuery

/-- A context with the same literals, and with notices that are all there in another. -/
structure Context.Quieter (context context' : Context) : Prop where
  bindings : context'.bindings = context.bindings
  /-- The notices stand in the same order, and some may be missing. -/
  notices : context'.notices.Sublist context.notices

namespace Compile

open Context (Quieter)

variable {α β γ δ : Type}

/--
Where a compilation gives a result, a second one gives a result that is related to it; it binds the
same literals, and leaves no notice that the first does not leave.
-/
def Eases (relation : α → β → Prop) (compile : Compile α) (compile' : Compile β) : Prop :=
  ∀ context context' result after, Quieter context context' →
    compile context = .ok (result, after) →
      ∃ result' after', compile' context' = .ok (result', after') ∧ relation result result' ∧
        Quieter after after'

/-- What is dropped with a notice gives nothing. -/
theorem ensures_dropped (reason : Reason) (message : String) (field operator : Value) :
    Ensures (do Compile.degrade reason message field operator; return (none : Option α))
      fun result _ => result = none := by
  have noted : (Compile.degrade reason message field operator).Ensures fun _ _ => True :=
    .degrade trivial
  exact .bind noted fun _ _ _ => .pure rfl

/-- So does what is dropped with a notice that shows something. -/
theorem ensures_shown (writable : Bool) (reason : Reason) (message : String)
    (field operator : Value) :
    Ensures (do
        Compile.requireWritten writable
        Compile.degrade reason message field operator
        return (none : Option α))
      fun result _ => result = none :=
  .written (ensures_dropped reason message field operator)

namespace Eases

variable {relation : α → β → Prop} {final : γ → δ → Prop}

/-- Related results at once are related. -/
theorem pure {result : α} {result' : β} (related : relation result result') :
    Eases relation (pure result) (pure result') := by
  intro context context' _ _ quieter ran
  cases ran
  exact ⟨result', context', rfl, related, quieter⟩

/-- Results that are given at once are related where the one eases the other. -/
theorem of_pure {result : α} {result' : β}
    (eases : Eases relation (Pure.pure result) (Pure.pure result')) : relation result result' := by
  obtain ⟨_, _, gave, related, -⟩ := eases .empty .empty _ _ ⟨rfl, List.Sublist.refl _⟩ rfl
  cases gave
  exact related

/-- A refusal gives no result that a second compilation would have to follow. -/
theorem refuse {fault : Fault} {compile' : Compile β} :
    Eases relation (Compile.refuse fault) compile' :=
  fun _ _ _ _ _ ran => nomatch ran

/-- A compilation that another eases is followed by one that the next of the other eases. -/
theorem bind {compile : Compile α} {compile' : Compile β} {next : α → Compile γ}
    {next' : β → Compile δ} (eases : Eases relation compile compile')
    (then_ : ∀ result result', relation result result' →
      Eases final (next result) (next' result')) :
    Eases final (compile >>= next) (compile' >>= next') := by
  -- The quieter context that the first step leaves is the one from which the second starts.
  intro context context' last after quieter ran
  obtain ⟨result, between, first, second⟩ := Compile.ok_of_bind ran
  obtain ⟨result', between', first', related, quieter'⟩ := eases _ _ _ _ quieter first
  obtain ⟨last', after', second', related', quieter''⟩ :=
    then_ result result' related _ _ _ _ quieter' second
  exact ⟨last', after', ContentQuery.bind_ok first' second', related', quieter''⟩

/-- A compilation that looks at no notice eases itself. -/
theorem refl {relation : α → α → Prop} {post : α → Prop} {compile : Compile α}
    (steady : compile.Steady post) (related : ∀ result, post result → relation result result) :
    Eases relation compile compile := by
  intro context context' result after quieter ran
  obtain ⟨met, given, listed, gives⟩ := steady.of_run ran
  have again := gives context'.notices
  rw [← quieter.bindings] at again
  refine ⟨result, _, again, related result met, rfl, ?_⟩
  -- What is noted on the way is noted behind fewer notices.
  rw [listed]
  exact quieter.notices.append_right given

/-- The same compilation may stand in front of one that another eases. -/
theorem after {compile : Compile α} {post : α → Prop} {next : α → Compile γ}
    {next' : α → Compile δ} (steady : compile.Steady post)
    (then_ : ∀ result, post result → Eases final (next result) (next' result)) :
    Eases final (compile >>= next) (compile >>= next') := by
  -- The same steady step gives the same result from both contexts.
  have first : Eases (fun result result' => post result ∧ result = result') compile compile :=
    .refl steady fun _ met => ⟨met, rfl⟩
  refine first.bind ?_
  rintro result _ ⟨met, rfl⟩
  exact then_ result met

/-- What a compilation only notes need not be noted for its result to be there. -/
theorem silent {compile : Compile α} {result' : β}
    (ensures : compile.Ensures fun result _ => relation result result') :
    Eases relation compile (Pure.pure result') := by
  -- Nothing is bound and notices are only added, so that the context stays quieter.
  intro context context' result after quieter ran
  obtain ⟨given, rfl, -, related⟩ := ensures.of_run ran
  refine ⟨result', context', rfl, related, ?_, ?_⟩
  · rw [quieter.bindings]
    exact (List.append_nil _).symm
  · exact quieter.notices.trans (List.sublist_append_left _ _)

/-- What a result at once eases may stand in front of another compilation than the result. -/
theorem absorb {compile : Compile α} {next : α → Compile γ} {result' : β} {compile' : Compile δ}
    (eases : Eases relation compile (Pure.pure result'))
    (then_ : ∀ result, relation result result' → Eases final (next result) compile') :
    Eases final (compile >>= next) compile' := by
  -- The other side has nothing to do for the first step, so that it is already where the second one
  -- starts.
  intro context context' last after quieter ran
  obtain ⟨result, between, first, second⟩ := Compile.ok_of_bind ran
  obtain ⟨_, _, gave, related, quieter'⟩ := eases _ _ _ _ quieter first
  cases gave
  exact then_ result related _ _ _ _ quieter' second

/-- A compilation that only notes something may be left out in front of another. -/
theorem skip {compile : Compile α} {next : α → Compile γ} {compile' : Compile δ}
    {post : α → Prop} (ensures : compile.Ensures fun result _ => post result)
    (then_ : ∀ result, post result → Eases final (next result) compile') :
    Eases final (compile >>= next) compile' := by
  have left : Eases (fun result _ => post result) compile (Pure.pure ()) := silent ensures
  exact left.absorb then_

/-- What eases a compilation may ease what is made of its result. -/
theorem map {compile : Compile α} {compile' : Compile β} {f : α → γ} {final : γ → β → Prop}
    (eases : Eases relation compile compile')
    (implies : ∀ result result', relation result result' → final (f result) result') :
    Eases final (do return f (← compile)) compile' := by
  have mapped : Eases final (do return f (← compile)) (compile' >>= Pure.pure) :=
    eases.bind fun result result' related => .pure (implies result result' related)
  rwa [bind_pure] at mapped

end Eases

end Compile

/--
Where a query compiles, so does one with the same filter whose other parts ease those of the first.
-/
theorem Compiled.run_of_eases {Native Argument Filter : Type} {target : Target}
    {settings : Settings}
    {relation : Native × OrderedMap Value Argument → Native × OrderedMap Value Argument → Prop}
    {first : Compile Filter} {next next' : Filter → Compile (Native × OrderedMap Value Argument)}
    {compiled : Compiled Native Argument}
    (eases : ∀ filter, Compile.Eases relation (next filter) (next' filter))
    (ran : run target settings (first >>= next) = .ok compiled) :
    ∃ compiled', run target settings (first >>= next') = .ok compiled' ∧
      relation (compiled.query, compiled.parameters) (compiled'.query, compiled'.parameters) := by
  obtain ⟨after, gave, -, passes⟩ := ok_of_run ran
  obtain ⟨filter, between, filtered, ended⟩ := Compile.ok_of_bind gave
  obtain ⟨result', after', ended', related, quieter⟩ :=
    eases filter _ _ _ _ ⟨rfl, List.Sublist.refl between.notices⟩ ended
  -- A strict compiler refuses for notices, of which there are none where there were none.
  have passes' : (settings.strict.isTruthy && !after'.notices.isEmpty) = false := by
    cases strict : settings.strict.isTruthy with
    | false => rfl
    | true =>
      rw [strict, Bool.true_and, Bool.not_eq_false', List.isEmpty_iff] at passes
      have none_ := quieter.notices
      rw [passes, List.sublist_nil] at none_
      rw [none_]
      rfl
  exact ⟨_, run_of_ok (ContentQuery.bind_ok filtered ended') passes', related⟩

end ContentQuery
