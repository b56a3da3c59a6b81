import ContentQuery.Proofs.Compilation

/-! Two runs side by side: they give related results, and bind equally many literals. -/

namespace ContentQuery

/-- Two readings that are both refused, or that give related results. -/
inductive ResultsAgree {α β : Type} (relation : α → β → Prop) :
    Except Fault α → Except Fault β → Prop
  | refused {fault fault' : Fault} : ResultsAgree relation (.error fault) (.error fault')
  | gave {given : α} {given' : β} (related : relation given given') :
    ResultsAgree relation (.ok given) (.ok given')

namespace ResultsAgree

variable {α β γ δ : Type} {relation : α → β → Prop} {final : γ → δ → Prop}
  {first : Except Fault α} {first' : Except Fault β}

/-- A reading agrees with itself where each result is related to itself. -/
theorem refl {relation : α → α → Prop} (reflexive : ∀ given, relation given given)
    (read : Except Fault α) : ResultsAgree relation read read := by
  cases read with
  | error fault => exact .refused
  | ok given => exact .gave (reflexive given)

/-- Two readings that agree are followed by two that agree. -/
theorem bind {next : α → Except Fault γ} {next' : β → Except Fault δ}
    (agree : ResultsAgree relation first first')
    (then_ : ∀ given given', relation given given' →
      ResultsAgree final (next given) (next' given')) :
    ResultsAgree final (first >>= next) (first' >>= next') := by
  -- One reading is refused exactly where the other is.
  cases agree with
  | refused => exact .refused
  | gave related => exact then_ _ _ related

/-- Where one of two readings that agree gives a result, so does the other. -/
theorem of_ok (agree : ResultsAgree relation first first') {given : α} (ran : first = .ok given) :
    ∃ given', first' = .ok given' ∧ relation given given' := by
  subst ran
  cases agree with
  | gave related => exact ⟨_, rfl, related⟩

end ResultsAgree

namespace Convert

variable {α β γ δ : Type}

/-- From a slot on, two conversions give related results and bind equally many literals. -/
def Agree (relation : α → β → Prop) (convert : Convert α) (convert' : Convert β) (slot : Nat) :
    Prop :=
  convert.Ensures slot fun result literals _ => convert'.Ensures slot fun result' literals' _ =>
    relation result result' ∧ literals.length = literals'.length

/-- Related results at once are related. -/
theorem Agree.pure {relation : α → β → Prop} {result : α} {result' : β} {slot : Nat}
    (related : relation result result') : Agree relation (pure result) (pure result') slot :=
  Ensures.pure (Ensures.pure ⟨related, rfl⟩)

/-- What two conversions give is related. -/
theorem Agree.of_gives {relation : α → β → Prop} {convert : Convert α} {convert' : Convert β}
    {slot : Nat} {result : α} {result' : β} {literals literals' : List Value}
    {notices notices' : List Notice} (gives : convert.Gives slot result literals notices)
    (gives' : convert'.Gives slot result' literals' notices') (related : relation result result')
    (counted : literals.length = literals'.length) : Agree relation convert convert' slot :=
  ⟨_, _, _, gives, _, _, _, gives', related, counted⟩

/-- Two conversions that agree lead to one slot, from which the next two agree. -/
theorem Agree.bind {relation : α → β → Prop} {final : γ → δ → Prop} {convert : Convert α}
    {convert' : Convert β} {next : α → Convert γ} {next' : β → Convert δ} {slot : Nat}
    (agree : Agree relation convert convert' slot)
    (then_ : ∀ result result' slot, relation result result' →
      Agree final (next result) (next' result') slot) :
    Agree final (convert >>= next) (convert' >>= next') slot := by
  -- The second run has bound as many literals, so that it goes on from the same slot.
  refine Ensures.bind agree fun result literals _ first => ?_
  obtain ⟨result', literals', _, gives', related, counted⟩ := first
  refine (then_ result result' (slot + literals.length) related).mono fun _ more _ last => ?_
  obtain ⟨last', more', _, ends', related', counted'⟩ := last
  rw [counted] at ends'
  refine ⟨last', _, _, gives'.bind ends', related', ?_⟩
  rw [List.length_append, List.length_append, counted, counted']

end Convert

namespace Compile

variable {α β γ δ : Type}

/-- Contexts in which the next literal takes the same slot. -/
def Level (context context' : Context) : Prop :=
  context.bindings.length = context'.bindings.length

/-- After equally many literals, two compilations agree, and have bound equally many in the end. -/
def Agree (relation : α → β → Prop) (compile : Compile α) (compile' : Compile β) : Prop :=
  ∀ context context', Level context context' →
    ResultsAgree (fun given given' => relation given.1 given'.1 ∧ Level given.2 given'.2)
      (compile context) (compile' context')

/-- Related results at once are related. -/
theorem Agree.pure {relation : α → β → Prop} {result : α} {result' : β}
    (related : relation result result') : Agree relation (pure result) (pure result') :=
  fun _ _ level => .gave ⟨related, level⟩

/-- Two refusals agree. -/
theorem Agree.refuse {relation : α → β → Prop} {fault fault' : Fault} :
    Agree relation (Compile.refuse fault) (Compile.refuse fault') :=
  fun _ _ _ => .refused

/-- Two compilations that agree are followed by two that agree. -/
theorem Agree.bind {relation : α → β → Prop} {final : γ → δ → Prop} {compile : Compile α}
    {compile' : Compile β} {next : α → Compile γ} {next' : β → Compile δ}
    (agree : Agree relation compile compile')
    (then_ : ∀ result result', relation result result' →
      Agree final (next result) (next' result')) :
    Agree final (compile >>= next) (compile' >>= next') :=
  fun context context' level => (agree context context' level).bind
    fun _ _ ⟨related, level'⟩ => then_ _ _ related _ _ level'

/-- A compilation that looks at no context and binds no literal agrees with itself. -/
theorem Agree.refl {relation : α → α → Prop} (reflexive : ∀ result, relation result result)
    {compile : Compile α} (blind : compile.Blind) : Agree relation compile compile := by
  -- A step that does not look at the context gives the same in both and binds nothing.
  intro context context' level
  rcases blind with ⟨fault, refused⟩ | ⟨result, notices, gives, -⟩
  · rw [refused context, refused context']
    exact .refused
  · rw [gives context, gives context']
    exact .gave ⟨reflexive result, by simpa [Level, Context.extend] using level⟩

/-- Degradations agree, whatever their notices say. -/
theorem Agree.degrade {reason reason' : Reason} {message message' : String}
    {field field' operator operator' : Value} :
    Agree Eq (Compile.degrade reason message field operator)
      (Compile.degrade reason' message' field' operator') :=
  fun _ _ level => .gave ⟨rfl, level⟩

/-- Conversions that agree do so as parts of compilations. -/
theorem Agree.lift {relation : α → β → Prop} {convert : Convert α} {convert' : Convert β}
    (agree : ∀ slot, convert.Agree relation convert' slot) :
    Agree relation convert.lift convert'.lift := by
  -- Both take as many slots from the same level, and so end at the same level.
  intro context context' level
  obtain ⟨result, literals, _, gives, result', literals', _, gives', related, counted⟩ :=
    agree context.bindings.length
  show ResultsAgree _ (.ok (convert context)) (.ok (convert' context'))
  rw [gives context rfl, gives' context' level.symm]
  refine .gave ⟨related, ?_⟩
  rw [Level, Context.extend_bindings_length, Context.extend_bindings_length, counted, level]

/-- Whatever came before each of them, two compilations are refused or give related results. -/
def Concur (relation : α → β → Prop) (compile : Compile α) (compile' : Compile β) : Prop :=
  ∀ context context', ResultsAgree (fun given given' => relation given.1 given'.1)
    (compile context) (compile' context')

/-- Related results at once are related. -/
theorem Concur.pure {relation : α → β → Prop} {result : α} {result' : β}
    (related : relation result result') : Concur relation (pure result) (pure result') :=
  fun _ _ => .gave related

/-- Two refusals concur. -/
theorem Concur.refuse {relation : α → β → Prop} {fault fault' : Fault} :
    Concur relation (Compile.refuse fault) (Compile.refuse fault') :=
  fun _ _ => .refused

/-- Two compilations that concur are followed by two that do. -/
theorem Concur.bind {relation : α → β → Prop} {final : γ → δ → Prop} {compile : Compile α}
    {compile' : Compile β} {next : α → Compile γ} {next' : β → Compile δ}
    (concur : Concur relation compile compile')
    (then_ : ∀ result result', relation result result' →
      Concur final (next result) (next' result')) :
    Concur final (compile >>= next) (compile' >>= next') :=
  fun context context' => (concur context context').bind fun _ _ related => then_ _ _ related _ _

/-- A compilation that looks at no context concurs with itself. -/
theorem Concur.refl {relation : α → α → Prop} (reflexive : ∀ result, relation result result)
    {compile : Compile α} (blind : compile.Blind) : Concur relation compile compile := by
  -- A step that does not look at the context gives the same in any two.
  intro context context'
  rcases blind with ⟨fault, refused⟩ | ⟨result, notices, gives, -⟩
  · rw [refused context, refused context']
    exact .refused
  · rw [gives context, gives context']
    exact .gave (reflexive result)

end Compile

end ContentQuery
