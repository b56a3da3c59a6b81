import ContentQuery.Compiler

/-! Compilations read as what they give: a result, literals bound on the way, and notices. -/

namespace ContentQuery

/-- A context with literals bound and notices given after those it has. -/
def Context.extend (context : Context) (literals : List Value) (notices : List Notice) : Context :=
  ⟨context.bindings ++ literals, context.notices ++ notices⟩

namespace Context

/-- Extending by nothing changes nothing. -/
@[simp] theorem extend_nil (context : Context) : context.extend [] [] = context := by
  simp [extend]

/-- Two extensions in a row are one extension by both. -/
@[simp] theorem extend_extend (context : Context) (literals literals' : List Value)
    (notices notices' : List Notice) :
    (context.extend literals notices).extend literals' notices' =
      context.extend (literals ++ literals') (notices ++ notices') := by
  simp [extend]

/-- Each literal takes one slot. -/
@[simp] theorem extend_bindings_length (context : Context) (literals : List Value)
    (notices : List Notice) :
    (context.extend literals notices).bindings.length =
      context.bindings.length + literals.length := by
  simp [extend]

end Context

namespace Convert

variable {α β : Type}

/-- From a slot on, a conversion gives a result, literals and notices, whatever came before. -/
def Gives (convert : Convert α) (slot : Nat) (result : α) (literals : List Value)
    (notices : List Notice) : Prop :=
  ∀ context : Context, context.bindings.length = slot →
    convert context = (result, context.extend literals notices)

/-- From a slot on, what a conversion gives meets a condition. -/
def Ensures (convert : Convert α) (slot : Nat)
    (post : α → List Value → List Notice → Prop) : Prop :=
  ∃ result literals notices,
    convert.Gives slot result literals notices ∧ post result literals notices

/-- A weaker condition is met as well. -/
theorem Ensures.mono {convert : Convert α} {slot : Nat}
    {post weaker : α → List Value → List Notice → Prop} (ensures : convert.Ensures slot post)
    (implies : ∀ result literals notices,
      post result literals notices → weaker result literals notices) :
    convert.Ensures slot weaker := by
  -- What is given stays the same, and only the condition on it changes.
  obtain ⟨result, literals, notices, gives, met⟩ := ensures
  exact ⟨result, literals, notices, gives, implies _ _ _ met⟩

/-- A result that is given at once binds no literal and leaves no notice. -/
theorem gives_pure (result : α) (slot : Nat) : Gives (pure result) slot result [] [] := by
  -- Nothing is added to the context, whatever it holds.
  intro context _
  rw [Context.extend_nil]
  rfl

/-- A result that is given at once meets what it meets by itself. -/
theorem Ensures.pure {result : α} {slot : Nat} {post : α → List Value → List Notice → Prop}
    (met : post result [] []) : Ensures (pure result) slot post :=
  ⟨result, [], [], gives_pure result slot, met⟩

/-- Literals and notices of a second conversion stand behind those of the first. -/
theorem Gives.bind {convert : Convert α} {next : α → Convert β} {slot : Nat} {result : α}
    {result' : β} {literals literals' : List Value} {notices notices' : List Notice}
    (gives : convert.Gives slot result literals notices)
    (gives' : (next result).Gives (slot + literals.length) result' literals' notices') :
    (convert >>= next).Gives slot result' (literals ++ literals') (notices ++ notices') := by
  -- The second step starts at the slot that the first one reached.
  intro context counted
  have reached : (context.extend literals notices).bindings.length = slot + literals.length := by
    rw [Context.extend_bindings_length, counted]
  show (let (a, s) := convert context; next a s) = _
  rw [gives context counted]
  show next result (context.extend literals notices) = _
  rw [gives' _ reached, Context.extend_extend]

/-- What is made of a result adds nothing to what the result takes. -/
theorem Gives.map {convert : Convert α} {slot : Nat} {result : α} {literals : List Value}
    {notices : List Notice} (gives : convert.Gives slot result literals notices) (f : α → β) :
    Gives (do return f (← convert)) slot (f result) literals notices := by
  have ended : Gives (do return f (← convert)) slot (f result) (literals ++ []) (notices ++ []) :=
    gives.bind (gives_pure (f result) _)
  rwa [List.append_nil, List.append_nil] at ended

/-- The second of two conversions starts at the slot that the first has led to. -/
theorem Ensures.bind {convert : Convert α} {next : α → Convert β} {slot : Nat}
    {post : α → List Value → List Notice → Prop} {final : β → List Value → List Notice → Prop}
    (first : convert.Ensures slot post)
    (then_ : ∀ result literals notices, post result literals notices →
      (next result).Ensures (slot + literals.length) fun result' literals' notices' =>
        final result' (literals ++ literals') (notices ++ notices')) :
    (convert >>= next).Ensures slot final := by
  obtain ⟨result, literals, notices, gives, met⟩ := first
  obtain ⟨result', literals', notices', gives', met'⟩ := then_ result literals notices met
  exact ⟨result', literals ++ literals', notices ++ notices', gives.bind gives', met'⟩

/-- Binding a literal gives the slot it is bound to. -/
theorem gives_bind (literal : Value) (slot : Nat) :
    (Convert.bind literal).Gives slot slot [literal] [] := by
  -- The slot is the number of literals that were bound before.
  intro context counted
  simp [Convert.bind, Context.bind, Context.extend, counted]

/-- Binding a literal meets what the slot meets. -/
theorem Ensures.bindLiteral {literal : Value} {slot : Nat}
    {post : Nat → List Value → List Notice → Prop} (met : post slot [literal] []) :
    (Convert.bind literal).Ensures slot post :=
  ⟨slot, [literal], [], gives_bind literal slot, met⟩

/-- A notice is all that a degradation leaves. -/
theorem gives_degrade (reason : Reason) (message : String) (field operator : Value) (slot : Nat) :
    (Convert.degrade reason message field operator).Gives slot () []
      [⟨reason, .text message, field, operator⟩] := by
  intro context _
  simp [Convert.degrade, Context.note, Context.extend]

/-- A degradation meets what its notice meets. -/
theorem Ensures.degrade {reason : Reason} {message : String} {field operator : Value} {slot : Nat}
    {post : Unit → List Value → List Notice → Prop}
    (met : post () [] [⟨reason, .text message, field, operator⟩]) :
    (Convert.degrade reason message field operator).Ensures slot post :=
  ⟨(), [], _, gives_degrade reason message field operator slot, met⟩

/-- What a conversion gives from a slot on is determined. -/
theorem Gives.unique {convert : Convert α} {slot : Nat} {result result' : α}
    {literals literals' : List Value} {notices notices' : List Notice}
    (gives : convert.Gives slot result literals notices)
    (gives' : convert.Gives slot result' literals' notices') :
    result = result' ∧ literals = literals' ∧ notices = notices' := by
  -- Both show in a run that starts at the slot.
  have counted : (⟨List.replicate slot .null, []⟩ : Context).bindings.length = slot := by simp
  obtain ⟨same, reached⟩ := Prod.mk.inj ((gives _ counted).symm.trans (gives' _ counted))
  refine ⟨same, ?_⟩
  simpa [Context.extend] using reached

/-- Something dropped with a notice is nothing, and the notice is there. -/
theorem ensures_dropped {reason : Reason} {message : String} {field operator : Value} {slot : Nat} :
    Convert.Ensures (do Convert.degrade reason message field operator; return (none : Option α))
      slot fun result _ notices => result = none ∧ notices ≠ [] := by
  have noted : (Convert.degrade reason message field operator).Ensures slot fun _ _ notices =>
      notices ≠ [] := .degrade (List.cons_ne_nil _ _)
  exact .bind noted fun _ _ _ some_ => .pure ⟨rfl, by simpa using some_⟩

/-- A run that started at the slot shows what the conversion gives. -/
theorem Ensures.of_run {convert : Convert α} {context after : Context} {result : α}
    {post : α → List Value → List Notice → Prop}
    (ensures : convert.Ensures context.bindings.length post)
    (ran : convert context = (result, after)) :
    ∃ literals notices, after = context.extend literals notices ∧ post result literals notices := by
  -- What is given does not depend on the run, so that the run gave the same.
  obtain ⟨result', literals, notices, gives, met⟩ := ensures
  obtain ⟨rfl, rfl⟩ := Prod.mk.inj ((gives context rfl).symm.trans ran)
  exact ⟨literals, notices, rfl, met⟩

end Convert

namespace Compile

variable {α β : Type}

/-- A compilation gives a result and notices, whatever came before. -/
def Gives (compile : Compile α) (result : α) (notices : List Notice) : Prop :=
  ∀ context : Context, compile context = .ok (result, context.extend [] notices)

/-- A compilation is refused, whatever came before. -/
def Refuses (compile : Compile α) (fault : Fault) : Prop :=
  ∀ context : Context, compile context = .error fault

/-- A compilation is refused, or what it gives meets a condition, whatever came before. -/
def Ensures (compile : Compile α) (post : α → List Notice → Prop) : Prop :=
  (∃ fault, compile.Refuses fault) ∨
    ∃ result notices, compile.Gives result notices ∧ post result notices

/-- A weaker condition is met as well. -/
theorem Ensures.mono {compile : Compile α} {post weaker : α → List Notice → Prop}
    (ensures : compile.Ensures post)
    (implies : ∀ result notices, post result notices → weaker result notices) :
    compile.Ensures weaker := by
  -- A refusal meets every condition, and a result keeps meeting its own.
  rcases ensures with refused | ⟨result, notices, gives, met⟩
  · exact Or.inl refused
  · exact Or.inr ⟨result, notices, gives, implies _ _ met⟩

/-- A result that is given at once leaves no notice. -/
theorem gives_pure (result : α) : Gives (pure result) result [] := by
  intro context
  rw [Context.extend_nil]
  rfl

/-- A result that is given at once meets what it meets without a notice. -/
theorem Ensures.pure {result : α} {post : α → List Notice → Prop} (met : post result []) :
    Ensures (pure result) post :=
  Or.inr ⟨result, [], gives_pure result, met⟩

/-- The second of two compilations starts from what the first has led to. -/
theorem bind_apply (compile : Compile α) (next : α → Compile β) (context : Context) :
    (compile >>= next) context = (compile context).bind fun given => next given.1 given.2 :=
  rfl

/-- A refusal ends a compilation. -/
theorem Refuses.bind {compile : Compile α} {next : α → Compile β} {fault : Fault}
    (refused : compile.Refuses fault) : (compile >>= next).Refuses fault := by
  intro context
  rw [bind_apply, refused context]
  rfl

/-- A refusal of the second compilation is one of both. -/
theorem Gives.refuses {compile : Compile α} {next : α → Compile β} {result : α}
    {notices : List Notice} {fault : Fault} (gives : compile.Gives result notices)
    (refused : (next result).Refuses fault) : (compile >>= next).Refuses fault := by
  intro context
  rw [bind_apply, gives context]
  exact refused _

/-- Two compilations in a row leave the notices of both. -/
theorem Gives.bind {compile : Compile α} {next : α → Compile β} {result : α} {result' : β}
    {notices notices' : List Notice} (gives : compile.Gives result notices)
    (gives' : (next result).Gives result' notices') :
    (compile >>= next).Gives result' (notices ++ notices') := by
  intro context
  rw [bind_apply, gives context]
  show next result (context.extend [] notices) = _
  rw [gives' _, Context.extend_extend, List.nil_append]

/-- What is made of a result leaves no further notice. -/
theorem Gives.map {compile : Compile α} {result : α} {notices : List Notice}
    (gives : compile.Gives result notices) (f : α → β) :
    Gives (do return f (← compile)) (f result) notices := by
  have ended : Gives (do return f (← compile)) (f result) (notices ++ []) :=
    gives.bind (gives_pure (f result))
  rwa [List.append_nil] at ended

/-- Two compilations in a row leave the notices of both, and either of them may be refused. -/
theorem Ensures.bind {compile : Compile α} {next : α → Compile β} {post : α → List Notice → Prop}
    {final : β → List Notice → Prop} (first : compile.Ensures post)
    (then_ : ∀ result notices, post result notices →
      (next result).Ensures fun result' notices' => final result' (notices ++ notices')) :
    (compile >>= next).Ensures final := by
  -- A refusal of the first ends the run, and otherwise the second decides.
  rcases first with ⟨fault, refused⟩ | ⟨result, notices, gives, met⟩
  · exact Or.inl ⟨fault, refused.bind⟩
  · rcases then_ result notices met with ⟨fault, refused⟩ | ⟨result', notices', gives', met'⟩
    · exact Or.inl ⟨fault, gives.refuses refused⟩
    · exact Or.inr ⟨result', notices ++ notices', gives.bind gives', met'⟩

/-- A notice is all that a degradation leaves. -/
theorem gives_degrade (reason : Reason) (message : String) (field operator : Value) :
    (Compile.degrade reason message field operator).Gives ()
      [⟨reason, .text message, field, operator⟩] := by
  intro context
  simp [Compile.degrade, Convert.lift, Convert.degrade, Context.note, Context.extend]

/-- A degradation meets what its notice meets. -/
theorem Ensures.degrade {reason : Reason} {message : String} {field operator : Value}
    {post : Unit → List Notice → Prop}
    (met : post () [⟨reason, .text message, field, operator⟩]) :
    (Compile.degrade reason message field operator).Ensures post :=
  Or.inr ⟨(), _, gives_degrade reason message field operator, met⟩

/-- A refusal meets every condition. -/
theorem Ensures.refuse {fault : Fault} {post : α → List Notice → Prop} :
    (Compile.refuse fault : Compile α).Ensures post :=
  Or.inl ⟨fault, fun _ => rfl⟩

/-- What is asked to be written was, or the compilation is refused. -/
theorem Ensures.requireWritten {writable : Bool} {post : Unit → List Notice → Prop}
    (met : writable = true → post () []) : (Compile.requireWritten writable).Ensures post := by
  cases writable with
  | true => exact Ensures.pure (met rfl)
  | false => exact Ensures.refuse

/-- What is given where something can be written is refused otherwise, and changes in nothing. -/
theorem Ensures.written {writable : Bool} {next : Compile α} {post : α → List Notice → Prop}
    (ensures : next.Ensures post) : Ensures (do Compile.requireWritten writable; next) post := by
  cases writable with
  | true => exact ensures
  | false => exact Or.inl ⟨.unwritable, fun _ => rfl⟩

/-- A reading that may fail leaves no notice. -/
theorem Ensures.ofExcept {read : Except Fault α} {post : α → List Notice → Prop}
    (met : ∀ result, read = .ok result → post result []) :
    (Compile.ofExcept read).Ensures post := by
  -- Neither a fault nor a result looks at the context.
  cases read with
  | error fault => exact Or.inl ⟨fault, fun _ => rfl⟩
  | ok result =>
    refine Or.inr ⟨result, [], fun context => ?_, met result rfl⟩
    rw [Context.extend_nil]
    rfl

/-- What meets a condition is what the compilation gives. -/
theorem Ensures.gives {compile : Compile α} {post : α → List Notice → Prop}
    (ensures : compile.Ensures post) :
    compile.Ensures fun result notices => compile.Gives result notices ∧ post result notices := by
  rcases ensures with refused | ⟨result, notices, gives, met⟩
  · exact Or.inl refused
  · exact Or.inr ⟨result, notices, gives, gives, met⟩

/-- A run has the result of the compilation, with its notices behind the earlier ones. -/
theorem Gives.of_run {compile : Compile α} {result result' : α} {notices : List Notice}
    (gives : compile.Gives result notices) {context after : Context}
    (ran : compile context = .ok (result', after)) :
    result' = result ∧ after = context.extend [] notices :=
  Prod.mk.inj (Except.ok.inj (ran.symm.trans (gives context)))

/-- A run that gives a result shows what the compilation gives in every context. -/
theorem Ensures.of_run {compile : Compile α} {post : α → List Notice → Prop}
    (ensures : compile.Ensures post) {context after : Context} {result : α}
    (ran : compile context = .ok (result, after)) :
    ∃ notices, after = context.extend [] notices ∧ compile.Gives result notices ∧
      post result notices := by
  -- A compilation that is refused has no such run.
  rcases ensures with ⟨fault, refused⟩ | ⟨result', notices, gives, met⟩
  · rw [refused context] at ran
    exact nomatch ran
  · obtain ⟨rfl, rfl⟩ := gives.of_run ran
    exact ⟨notices, rfl, gives, met⟩

/-- What a compilation gives is determined. -/
theorem Gives.unique {compile : Compile α} {result result' : α} {notices notices' : List Notice}
    (gives : compile.Gives result notices) (gives' : compile.Gives result' notices') :
    result = result' ∧ notices = notices' := by
  -- Both show in a run without a past.
  have same := (gives .empty).symm.trans (gives' .empty)
  simpa [Context.extend] using same

/-- What a compilation ensures is met by what it gives. -/
theorem Ensures.of_gives {compile : Compile α} {post : α → List Notice → Prop}
    (ensures : compile.Ensures post) {result : α} {notices : List Notice}
    (gives : compile.Gives result notices) : post result notices := by
  -- A step gives one result only, so that it is the one that meets the condition.
  rcases ensures with ⟨fault, refused⟩ | ⟨result', notices', gives', met⟩
  · exact nomatch (gives .empty).symm.trans (refused .empty)
  · obtain ⟨rfl, rfl⟩ := gives.unique gives'
    exact met

/-- A compilation that looks at nothing that came before, and binds no literal. -/
def Blind (compile : Compile α) : Prop :=
  compile.Ensures fun _ _ => True

namespace Blind

/-- A result that is given at once looks at nothing. -/
theorem pure {result : α} : Blind (pure result) :=
  Ensures.pure trivial

/-- Two compilations in a row are blind when both are, whatever the first gives. -/
theorem bind {compile : Compile α} {next : α → Compile β} (first : compile.Blind)
    (then_ : ∀ result, (next result).Blind) : (compile >>= next).Blind :=
  Ensures.bind first fun result _ _ => then_ result

/-- A refusal looks at nothing. -/
theorem refuse {fault : Fault} : (Compile.refuse fault : Compile α).Blind :=
  Ensures.refuse

/-- A reading looks at nothing. -/
theorem ofExcept {read : Except Fault α} : (Compile.ofExcept read).Blind :=
  Ensures.ofExcept fun _ _ => trivial

/-- A degradation only adds its notice. -/
theorem degrade {reason : Reason} {message : String} {field operator : Value} :
    (Compile.degrade reason message field operator).Blind :=
  Ensures.degrade trivial

/-- Asking for what can be written looks at nothing. -/
theorem requireWritten {writable : Bool} : (Compile.requireWritten writable).Blind :=
  Ensures.requireWritten fun _ => trivial

end Blind

/--
A compilation that looks at no notice: after given literals it is refused, or it gives a result that
meets a condition, and puts literals and notices behind those it found.
-/
def Steady (compile : Compile α) (post : α → Prop) : Prop :=
  ∀ bindings, (∃ fault, ∀ notices, compile ⟨bindings, notices⟩ = .error fault) ∨
    ∃ result literals given, post result ∧ ∀ notices,
      compile ⟨bindings, notices⟩ = .ok (result, ⟨bindings ++ literals, notices ++ given⟩)

/-- A run shows what a steady compilation gives whatever was noted before. -/
theorem Steady.of_run {compile : Compile α} {post : α → Prop} (steady : compile.Steady post)
    {context after : Context} {result : α} (ran : compile context = .ok (result, after)) :
    post result ∧ ∃ given, after.notices = context.notices ++ given ∧ ∀ notices,
      compile ⟨context.bindings, notices⟩ = .ok (result, ⟨after.bindings, notices ++ given⟩) := by
  -- A compilation that is refused has no such run.
  rcases steady context.bindings with ⟨fault, refused⟩ | ⟨result', literals, given, met, gives⟩
  · exact absurd ((refused context.notices).symm.trans ran) nofun
  · have same := (gives context.notices).symm.trans ran
    simp only [Except.ok.injEq, Prod.mk.injEq] at same
    obtain ⟨rfl, rfl⟩ := same
    exact ⟨met, given, rfl, gives⟩

/-- A weaker condition is met as well. -/
theorem Steady.mono {compile : Compile α} {post weaker : α → Prop} (steady : compile.Steady post)
    (implies : ∀ result, post result → weaker result) : compile.Steady weaker := by
  intro bindings
  rcases steady bindings with refused | ⟨result, literals, given, met, gives⟩
  · exact Or.inl refused
  · exact Or.inr ⟨result, literals, given, implies result met, gives⟩

/-- A result that is given at once adds nothing. -/
theorem Steady.pure {result : α} {post : α → Prop} (met : post result) :
    Steady (pure result) post := by
  intro bindings
  refine Or.inr ⟨result, [], [], met, fun notices => ?_⟩
  rw [List.append_nil, List.append_nil]
  rfl

/-- The second of two compilations starts behind what the first has added, with its result. -/
theorem Steady.followed {compile : Compile α} {next : α → Compile β} {between : α → Prop}
    {post : β → Prop} (first : compile.Steady between)
    (then_ : ∀ result, between result → (next result).Steady post) :
    (compile >>= next).Steady post := by
  intro bindings
  -- A refusal of the first ends every run, and otherwise the second decides.
  rcases first bindings with ⟨fault, refused⟩ | ⟨result, literals, given, met, gives⟩
  · refine Or.inl ⟨fault, fun notices => ?_⟩
    rw [bind_apply, refused notices]
    rfl
  · rcases then_ result met (bindings ++ literals) with
      ⟨fault, refused⟩ | ⟨result', literals', given', met', gives'⟩
    · refine Or.inl ⟨fault, fun notices => ?_⟩
      rw [bind_apply, gives notices]
      exact refused _
    · refine Or.inr ⟨result', literals ++ literals', given ++ given', met', fun notices => ?_⟩
      rw [bind_apply, gives notices, ← List.append_assoc, ← List.append_assoc]
      exact gives' _

/-- Two compilations in a row are steady when both are, whatever the first gives. -/
theorem Steady.bind {compile : Compile α} {next : α → Compile β} {post : β → Prop}
    (first : compile.Steady fun _ => True) (then_ : ∀ result, (next result).Steady post) :
    (compile >>= next).Steady post :=
  first.followed fun result _ => then_ result

/-- A refusal gives nothing. -/
theorem Steady.refuse {fault : Fault} {post : α → Prop} :
    (Compile.refuse fault : Compile α).Steady post :=
  fun _ => Or.inl ⟨fault, fun _ => rfl⟩

/-- What a compilation gives, whatever came before, is given steadily. -/
theorem Ensures.steady {compile : Compile α} {post : α → Prop}
    (ensures : compile.Ensures fun result _ => post result) : compile.Steady post := by
  -- What ignores the context binds nothing and leaves the same notices every time.
  intro bindings
  rcases ensures with ⟨fault, refused⟩ | ⟨result, given, gives, met⟩
  · exact Or.inl ⟨fault, fun _ => refused _⟩
  · exact Or.inr ⟨result, [], given, met, fun _ => gives _⟩

/-- A compilation that looks at nothing looks at no notice. -/
theorem Blind.steady {compile : Compile α} (blind : compile.Blind) :
    compile.Steady fun _ => True :=
  Ensures.steady blind

/-- A reading that may fail adds nothing. -/
theorem Steady.ofExcept {read : Except Fault α} :
    (Compile.ofExcept read).Steady fun _ => True :=
  Ensures.steady (.ofExcept fun _ _ => trivial)

/-- A notice is added behind the others. -/
theorem Steady.degrade {reason : Reason} {message : String} {field operator : Value} :
    (Compile.degrade reason message field operator).Steady fun _ => True :=
  Ensures.steady (.degrade trivial)

/-- Asking for what can be written adds nothing. -/
theorem Steady.requireWritten {writable : Bool} :
    (Compile.requireWritten writable).Steady fun _ => True :=
  Blind.steady .requireWritten

/-- A conversion that adds literals and notices puts them behind the others. -/
theorem Steady.lift {convert : Convert α}
    (ensures : ∀ slot, convert.Ensures slot fun _ _ _ => True) :
    convert.lift.Steady fun _ => True := by
  intro bindings
  obtain ⟨result, literals, given, gives, -⟩ := ensures bindings.length
  exact Or.inr ⟨result, literals, given, trivial, fun notices => congrArg Except.ok (gives _ rfl)⟩

/-- Looking at the literals that were bound is steady. -/
theorem Steady.literals {next : Context → Compile β} {post : β → Prop}
    (steady : ∀ bindings, (next ⟨bindings, []⟩).Steady post)
    (blind : ∀ bindings notices, next ⟨bindings, notices⟩ = next ⟨bindings, []⟩) :
    Steady (get >>= next) post := by
  -- The notices of the context are not looked at, and the bindings are given.
  intro bindings
  have unfolded : ∀ notices, (get >>= next) (⟨bindings, notices⟩ : Context) =
      next ⟨bindings, []⟩ ⟨bindings, notices⟩ := fun notices => by
    rw [← blind bindings notices]
    rfl
  simp only [unfolded]
  exact steady bindings bindings

end Compile

/-- A leaf is dropped with the notice about it, unless its literal failed in another way. -/
theorem Compile.Ensures.dropInvalidValue {field : Value} {operator : Operator} {fault : FormatFault}
    {post : Unit → List Notice → Prop}
    (met : ∀ message, fault.isUnwritable = false →
      post () [⟨.invalidValue, .text message, field, .text operator.symbol⟩]) :
    (ContentQuery.dropInvalidValue field operator fault).Ensures post := by
  -- A fault of the writing is passed on; any other is told of.
  unfold ContentQuery.dropInvalidValue
  split
  · exact .refuse
  · rename_i own
    exact .degrade (met _ (by simpa using own))

/-- What two steps give is what the second gives for what the first gives. -/
theorem ok_of_bind {ε α β : Type} {first : Except ε α} {next : α → Except ε β} {given : β}
    (ran : first >>= next = .ok given) :
    ∃ between, first = .ok between ∧ next between = .ok given := by
  cases first with
  | error fault => exact nomatch ran
  | ok between => exact ⟨between, rfl, ran⟩

/-- What is refused in two steps is refused in the first, or in the second after the first. -/
theorem error_of_bind {ε α β : Type} {first : Except ε α} {next : α → Except ε β} {fault : ε}
    (refused : first >>= next = .error fault) :
    first = .error fault ∨ ∃ between, first = .ok between ∧ next between = .error fault := by
  cases first with
  | error other => exact .inl (congrArg Except.error (Except.error.inj refused))
  | ok between => exact .inr ⟨between, rfl, refused⟩

/-- Two steps give what the second gives for what the first gives. -/
theorem bind_ok {ε α β : Type} {first : Except ε α} {next : α → Except ε β} {between : α}
    {given : β} (there : first = .ok between) (ran : next between = .ok given) :
    first >>= next = .ok given := by
  rw [there]
  exact ran

/-- Two steps give something when the first gives something from which the second goes on. -/
theorem exists_ok_bind {ε α β : Type} {first : Except ε α} {next : α → Except ε β} :
    (∃ given, first >>= next = .ok given) ↔
      ∃ between, first = .ok between ∧ ∃ given, next between = .ok given := by
  -- Both steps have to succeed.
  constructor
  · rintro ⟨given, ran⟩
    obtain ⟨between, there, ran⟩ := ok_of_bind ran
    exact ⟨between, there, given, ran⟩
  · rintro ⟨between, there, given, ran⟩
    exact ⟨given, bind_ok there ran⟩

/-- A result that has passed a test was there before it, and it passed. -/
theorem ok_of_tested {ε α : Type} {result : Except ε α} {test : α → Bool} {fault : ε} {given : α}
    (ran : (do let found ← result; if test found then return found else throw fault) =
      Except.ok given) : result = .ok given ∧ test given = true := by
  -- The test is made on what was found.
  obtain ⟨found, there, ran⟩ := ok_of_bind ran
  split at ran
  · rename_i passes
    cases ran
    exact ⟨there, passes⟩
  · exact nomatch ran

/-- What is made of a result is there when the result is. -/
theorem exists_ok_map {ε α β : Type} {result : Except ε α} (f : α → β) :
    (∃ given, (do return f (← result)) = Except.ok (ε := ε) given) ↔
      ∃ found, result = .ok found := by
  rw [exists_ok_bind]
  exact ⟨fun ⟨found, there, _⟩ => ⟨found, there⟩, fun ⟨found, there⟩ => ⟨found, there, f found, rfl⟩⟩

/-- What a result is mapped to was mapped from a result. -/
theorem exists_of_map {ε α β : Type} {result : Except ε α} {f : α → β} {given : β}
    (mapped : result.map f = .ok given) : ∃ found, result = .ok found ∧ f found = given := by
  cases result with
  | error fault => exact nomatch mapped
  | ok found => exact ⟨found, rfl, Except.ok.inj mapped⟩

/-- A result that was wrapped is there without its wrapping. -/
theorem ok_of_map {α β : Type} {result : Except Fault α} {wrap : α → β} {given : α}
    (wraps : Function.Injective wrap) (mapped : result.map wrap = .ok (wrap given)) :
    result = .ok given := by
  obtain ⟨found, there, same⟩ := exists_of_map mapped
  rw [there, wraps same]

/-- Items and their results, where every item has one, can be told from each other. -/
theorem mem_of_mapM {ε α β : Type} {f : α → Except ε β} {items : List α} {results : List β}
    (made : items.mapM f = .ok results) :
    (∀ item ∈ items, ∃ result ∈ results, f item = .ok result) ∧
      ∀ result ∈ results, ∃ item ∈ items, f item = .ok result := by
  -- The first item has a result where all have, and the others follow by induction.
  induction items generalizing results with
  | nil =>
    cases made
    simp
  | cons item rest ih =>
    rw [List.mapM_cons] at made
    obtain ⟨result, first, made⟩ := ok_of_bind made
    obtain ⟨others, given, made⟩ := ok_of_bind made
    cases made
    obtain ⟨each, back⟩ := ih given
    constructor
    · rintro _ (_ | ⟨_, member⟩)
      · exact ⟨result, by simp, first⟩
      · obtain ⟨other, inside, same⟩ := each _ member
        exact ⟨other, by simp [inside], same⟩
    · rintro _ (_ | ⟨_, member⟩)
      · exact ⟨item, by simp, first⟩
      · obtain ⟨other, inside, same⟩ := back _ member
        exact ⟨other, by simp [inside], same⟩

/-- There are as many results as items, where every item has one. -/
theorem length_of_mapM {ε α β : Type} {f : α → Except ε β} {items : List α} {results : List β}
    (made : items.mapM f = .ok results) : results.length = items.length := by
  -- By induction on the items: each of them gives one result.
  induction items generalizing results with
  | nil =>
    cases made
    rfl
  | cons item rest ih =>
    rw [List.mapM_cons] at made
    obtain ⟨result, -, made⟩ := ok_of_bind made
    obtain ⟨others, given, made⟩ := ok_of_bind made
    cases made
    exact congrArg (· + 1) (ih given)

/-- A traversal whose steps all succeed gives what the steps give. -/
theorem mapM_eq_some_map {α β : Type} {read : α → Option β} {found : α → β} {items : List α}
    (each : ∀ item ∈ items, read item = some (found item)) :
    items.mapM read = some (items.map found) := by
  -- By induction on the items.
  induction items with
  | nil => rfl
  | cons item rest ih =>
    obtain ⟨here, later⟩ := List.forall_mem_cons.mp each
    rw [List.mapM_cons, here, ih later]
    rfl

/-- Where a second function has every result of a first, it has those for all items. -/
theorem mapM_of_imp {ε α β : Type} {f g : α → Except ε β} {items : List α} {results : List β}
    (follows : ∀ item ∈ items, ∀ result, f item = .ok result → g item = .ok result)
    (made : items.mapM f = .ok results) : items.mapM g = .ok results := by
  -- By induction on the items, of which each succeeds in the same way.
  induction items generalizing results with
  | nil => exact made
  | cons item rest ih =>
    obtain ⟨here, later⟩ := List.forall_mem_cons.mp follows
    rw [List.mapM_cons] at made
    obtain ⟨result, first, made⟩ := ok_of_bind made
    obtain ⟨others, given, made⟩ := ok_of_bind made
    cases made
    rw [List.mapM_cons, here result first, ih later given]
    rfl

/-- The entry under a name is the first one whose key is that text. -/
theorem Value.lookup?_cons (name : String) (key value : Value) (rest : List (Value × Value)) :
    Value.lookup? name ((key, value) :: rest) =
      if Node.keyText? key = some name then some value else Value.lookup? name rest := by
  cases key with
  | text word => simp only [Value.lookup?, Node.keyText?, Option.some.injEq]
  | _ => rfl

/-- The settings of a compiler that was given no options, less the limit of its target. -/
def Settings.standard : Settings where
  defaultLocale := .null
  fallbackLocales := []
  defaultLimit := none
  maxResolveDepth := standardDepth
  includeDrafts := .null
  strict := .bool false
  maxDepth := standardDepth
  globalFilter := .conditions [] []

/-- The query for every document. -/
def Query.everything : Query where
  -- Every type, no condition, and nothing that shapes the answer.
  types := .every
  filter := []
  projection := .null
  order := []
  limit := none
  offset := none
  cursor := .null
  locale := .null
  fallbackLocale := .null
  includeDrafts := .null
  resolve := .unset
  params := .empty

/-- A run of two compilations in a row is a run of each. -/
theorem Compile.ok_of_bind {α β : Type} {compile : Compile α} {next : α → Compile β}
    {context after : Context} {given : β}
    (ran : (compile >>= next) context = .ok (given, after)) :
    ∃ result between, compile context = .ok (result, between) ∧
      next result between = .ok (given, after) := by
  obtain ⟨⟨result, between⟩, first, second⟩ := ContentQuery.ok_of_bind ran
  exact ⟨result, between, first, second⟩

/-- A run goes on behind a test of what can be written, which was passed. -/
theorem Compile.ok_of_requireWritten {β : Type} {writable : Bool} {next : Compile β}
    {context after : Context} {given : β}
    (ran : (do Compile.requireWritten writable; next) context = .ok (given, after)) :
    writable = true ∧ next context = .ok (given, after) := by
  cases writable with
  | true => exact ⟨rfl, ran⟩
  | false => exact nomatch ran

namespace Compiler

/-- The conditions of a query's own filter, as a compiler reads them. -/
def conditionsOf (compiler : Compiler) (query : Query) : Except Fault (List Condition) := do
  let limit := compiler.settings.depthLimit
  let nodes ← Query.readRawFilter limit query.filter
  Condition.readAll limit "filter" nodes

/-- A query is compiled after its conditions have been read. -/
theorem compileQuery_eq (compiler : Compiler) (query : Query) :
    compiler.compileQuery query =
      compiler.conditionsOf query >>= compiler.compileConditions query := by
  -- The filter is read in two steps, and the second starts from what the first has given.
  simp only [compileQuery, conditionsOf, bind_assoc]

/-- A query that is compiled has conditions that can be read. -/
theorem conditions_of_compileQuery {compiler : Compiler} {query : Query} {output : Output}
    (built : compiler.compileQuery query = .ok output) :
    ∃ own, compiler.conditionsOf query = .ok own ∧
      compiler.compileConditions query own = .ok output :=
  ok_of_bind ((compiler.compileQuery_eq query).symm.trans built)

end Compiler

end ContentQuery
