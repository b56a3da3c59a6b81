import ContentQuery.Proofs.Notices
import ContentQuery.Proofs.TwoRuns

/-! Two runs that bind the same literals and leave notices for the same reasons, in order. -/

namespace ContentQuery

/-- Contexts with the same literals, and with notices for the same reasons. -/
structure Context.Echoes (context context' : Context) : Prop where
  bindings : context.bindings = context'.bindings
  reasons : context.notices.map Notice.reason = context'.notices.map Notice.reason

namespace Context.Echoes

/-- A context has the literals and reasons that it has. -/
theorem refl (context : Context) : context.Echoes context :=
  ⟨rfl, rfl⟩

/-- Extending both by the same literals and the same reasons keeps them alike. -/
theorem extend {context context' : Context} (echoes : context.Echoes context')
    (literals : List Value) {notices notices' : List Notice}
    (same : notices.map Notice.reason = notices'.map Notice.reason) :
    (context.extend literals notices).Echoes (context'.extend literals notices') := by
  refine ⟨?_, ?_⟩
  · simp only [Context.extend, echoes.bindings]
  · simp only [Context.extend, List.map_append, echoes.reasons, same]

end Context.Echoes

/-- Two readings that agree, unless one of them is refused for a fault that excuses both. -/
def AgreeUnless {α β : Type} (excused : Fault → Prop) (relation : α → β → Prop)
    (first : Except Fault α) (first' : Except Fault β) : Prop :=
  ResultsAgree relation first first' ∨
    ∃ fault, excused fault ∧ (first = .error fault ∨ first' = .error fault)

namespace AgreeUnless

variable {α β γ δ : Type} {excused : Fault → Prop} {relation : α → β → Prop}
  {final : γ → δ → Prop} {first : Except Fault α} {first' : Except Fault β}

/-- Two results that are related agree. -/
theorem gave {given : α} {given' : β} (related : relation given given') :
    AgreeUnless excused relation (.ok given) (.ok given') :=
  Or.inl (.gave related)

/-- Two refusals agree. -/
theorem refused {fault fault' : Fault} :
    AgreeUnless excused relation (.error fault) (.error fault') :=
  Or.inl .refused

/-- A refusal that excuses both is a refusal of what follows as well. -/
theorem bind {next : α → Except Fault γ} {next' : β → Except Fault δ}
    (agree : AgreeUnless excused relation first first')
    (then_ : ∀ given given', relation given given' →
      AgreeUnless excused final (next given) (next' given')) :
    AgreeUnless excused final (first >>= next) (first' >>= next') := by
  -- An excused fault of either excuses both, whatever comes behind.
  rcases agree with agree | ⟨fault, excuses, rfl | rfl⟩
  · cases agree with
    | refused => exact .refused
    | gave related => exact then_ _ _ related
  · exact Or.inr ⟨fault, excuses, Or.inl rfl⟩
  · exact Or.inr ⟨fault, excuses, Or.inr rfl⟩

/-- Results that are related in one way may be so in another. -/
theorem mono {weaker : α → β → Prop} (agree : AgreeUnless excused relation first first')
    (implies : ∀ given given', relation given given' → weaker given given') :
    AgreeUnless excused weaker first first' := by
  -- Only what both gave has to be related anew.
  rcases agree with agree | excuse
  · cases agree with
    | refused => exact .refused
    | gave related => exact .gave (implies _ _ related)
  · exact Or.inr excuse

/-- What is made of results that agree agrees. -/
theorem map (agree : AgreeUnless excused relation first first') {make : α → γ} {make' : β → δ}
    (implies : ∀ given given', relation given given' → final (make given) (make' given')) :
    AgreeUnless excused final (first.map make) (first'.map make') := by
  -- As for a second step that cannot fail.
  rcases agree with agree | ⟨fault, excuses, rfl | rfl⟩
  · cases agree with
    | refused => exact .refused
    | gave related => exact .gave (implies _ _ related)
  · exact Or.inr ⟨fault, excuses, Or.inl rfl⟩
  · exact Or.inr ⟨fault, excuses, Or.inr rfl⟩

/-- Results that are refused where they fail tests agree, unless only one of them fails its test. -/
theorem tested {given : α} {given' : β} {test test' : Bool} {fault : Fault}
    (excuses : excused fault) (related : relation given given') :
    AgreeUnless excused relation (if test then pure given else throw fault)
      (if test' then pure given' else throw fault) := by
  -- The two tests need not agree: where either fails, its fault is the excused one.
  split
  · split
    · exact .gave related
    · exact Or.inr ⟨fault, excuses, Or.inr rfl⟩
  · exact Or.inr ⟨fault, excuses, Or.inl rfl⟩

/-- Where two readings give results, these are related. -/
theorem of_ok {given : α} {given' : β} (agree : AgreeUnless excused relation first first')
    (ran : first = .ok given) (ran' : first' = .ok given') : relation given given' := by
  -- Where both gave something no fault can excuse them.
  subst ran ran'
  rcases agree with agree | ⟨fault, -, same | same⟩
  · cases agree with
    | gave related => exact related
  · exact nomatch same
  · exact nomatch same

/-- Where nothing excuses a refusal, two readings agree. -/
theorem agree (without : AgreeUnless (fun _ => False) relation first first') :
    ResultsAgree relation first first' := by
  rcases without with agree | ⟨_, impossible, -⟩
  · exact agree
  · exact impossible.elim

end AgreeUnless

namespace Compile

variable {α β γ δ : Type} {excused : Fault → Prop}

/--
In contexts with the same literals and reasons, two compilations are both refused, or they give
related results and lead to such contexts again, unless one of them is refused for a fault that
excuses both.
-/
def Echo (excused : Fault → Prop) (relation : α → β → Prop) (compile : Compile α)
    (compile' : Compile β) : Prop :=
  ∀ context context' : Context, context.Echoes context' →
    AgreeUnless excused (fun given given' => relation given.1 given'.1 ∧ given.2.Echoes given'.2)
      (compile context) (compile' context')

/-- Two compilations echo each other, and no refusal excuses them. -/
abbrev EchoFully (relation : α → β → Prop) (compile : Compile α) (compile' : Compile β) : Prop :=
  Echo (fun _ => False) relation compile compile'

/-- Two compilations echo each other unless one is refused for an integer that is too long. -/
abbrev EchoWritten (relation : α → β → Prop) (compile : Compile α) (compile' : Compile β) : Prop :=
  Echo (· = .unwritable) relation compile compile'

namespace Echo

variable {relation : α → β → Prop} {compile : Compile α} {compile' : Compile β}

/-- Related results at once are related. -/
theorem pure {result : α} {result' : β} (related : relation result result') :
    Echo excused relation (pure result) (pure result') :=
  fun _ _ echoes => .gave ⟨related, echoes⟩

/-- Two compilations that echo each other are followed by two that do. -/
theorem bind {final : γ → δ → Prop} {next : α → Compile γ} {next' : β → Compile δ}
    (echo : Echo excused relation compile compile')
    (then_ : ∀ result result', relation result result' →
      Echo excused final (next result) (next' result')) :
    Echo excused final (compile >>= next) (compile' >>= next') :=
  fun context context' echoes => (echo context context' echoes).bind
    fun _ _ ⟨related, echoes'⟩ => then_ _ _ related _ _ echoes'

/-- Results that are related in one way may be so in another. -/
theorem mono {weaker : α → β → Prop} (echo : Echo excused relation compile compile')
    (implies : ∀ result result', relation result result' → weaker result result') :
    Echo excused weaker compile compile' := by
  intro context context' echoes
  exact (echo context context' echoes).mono fun _ _ related =>
    ⟨implies _ _ related.1, related.2⟩

/-- Two refusals echo each other. -/
theorem refuse {fault fault' : Fault} :
    Echo excused relation (Compile.refuse fault) (Compile.refuse fault') :=
  fun _ _ _ => .refused

/-- A refusal that excuses both is a refusal in every context. -/
theorem excuse {fault : Fault} (excuses : excused fault)
    (refused : compile.Refuses fault ∨ compile'.Refuses fault) :
    Echo excused relation compile compile' :=
  fun context context' _ => Or.inr ⟨fault, excuses, refused.imp (· context) (· context')⟩

/-- Two readings that agree echo each other. -/
theorem ofExcept {read : Except Fault α} {read' : Except Fault β}
    (agree : ResultsAgree relation read read') :
    Echo excused relation (Compile.ofExcept read) (Compile.ofExcept read') := by
  intro context context' echoes
  cases agree with
  | refused => exact .refused
  | gave related => exact .gave ⟨related, echoes⟩

/-- Degradations for one reason echo each other, whatever their notices say. -/
theorem degrade {reason : Reason} {message message' : String}
    {field field' operator operator' : Value} :
    Echo excused Eq (Compile.degrade reason message field operator)
      (Compile.degrade reason message' field' operator') := by
  -- The notices may differ in everything but their reason.
  intro context context' echoes
  refine .gave ⟨rfl, echoes.bindings, ?_⟩
  show (context.notices ++ [_]).map Notice.reason = (context'.notices ++ [_]).map Notice.reason
  rw [List.map_append, List.map_append, echoes.reasons]
  rfl

/-- Degradations for one reason are followed by what echoes each other. -/
theorem noted {reason : Reason} {message message' : String}
    {field field' operator operator' : Value} (echo : Echo excused relation compile compile') :
    Echo excused relation (do Compile.degrade reason message field operator; compile)
      (do Compile.degrade reason message' field' operator'; compile') :=
  bind degrade fun _ _ _ => echo

/-- What asks for the same to be written is followed by what echoes each other. -/
theorem asked {writable : Bool} (echo : Echo excused relation compile compile') :
    Echo excused relation (do Compile.requireWritten writable; compile)
      (do Compile.requireWritten writable; compile') := by
  cases writable with
  | true => exact echo
  | false => exact fun _ _ _ => .refused

/-- Leaves that are dropped for one literal echo each other. -/
theorem dropInvalidValue {field field' : Value} {operator operator' : Operator}
    {fault : FormatFault} :
    Echo excused Eq (ContentQuery.dropInvalidValue field operator fault)
      (ContentQuery.dropInvalidValue field' operator' fault) := by
  -- Whether a fault ends the compilation does not hang on the literal: it is the same in both.
  unfold ContentQuery.dropInvalidValue
  split
  · exact refuse
  · exact degrade

/-- Where something cannot be written on one side, the refusal excuses the other side. -/
theorem written {writable writable' : Bool} (echo : EchoWritten relation compile compile') :
    EchoWritten relation (do Compile.requireWritten writable; compile)
      (do Compile.requireWritten writable'; compile') := by
  -- Either literal may be the one that cannot be written, which is what is excused.
  cases writable with
  | false => exact excuse rfl (Or.inl fun _ => rfl)
  | true =>
    cases writable' with
    | false => exact excuse rfl (Or.inr fun _ => rfl)
    | true => exact echo

/-- Leaves that are dropped for their literals echo each other, or one of them is refused. -/
theorem dropInvalidValues {field field' : Value} {operator operator' : Operator}
    {fault fault' : FormatFault} :
    EchoWritten Eq (ContentQuery.dropInvalidValue field operator fault)
      (ContentQuery.dropInvalidValue field' operator' fault') := by
  -- The faults may differ here, and with them what becomes of the leaf; a fault that ends the
  -- compilation is the excused one.
  unfold ContentQuery.dropInvalidValue
  split
  · exact excuse rfl (Or.inl fun _ => rfl)
  · split
    · exact excuse rfl (Or.inr fun _ => rfl)
    · exact degrade

/-- A compilation that looks at no notice echoes itself. -/
theorem of_steady {post : α → Prop} (steady : compile.Steady post) :
    Echo excused (fun result result' => result = result' ∧ post result) compile compile := by
  -- What a steady step does hangs on the bindings alone, which are the same.
  intro context context' ⟨bound, reasons⟩
  obtain ⟨bindings, notices⟩ := context
  obtain ⟨bindings', notices'⟩ := context'
  obtain rfl : bindings = bindings' := bound
  rcases steady bindings with ⟨fault, refused⟩ | ⟨result, literals, given, met, gives⟩
  · rw [refused notices, refused notices']
    exact .refused
  · rw [gives notices, gives notices']
    refine .gave ⟨⟨rfl, met⟩, rfl, ?_⟩
    rw [List.map_append, List.map_append, reasons]

/-- So its results are the same. -/
theorem refl {post : α → Prop} (steady : compile.Steady post) : Echo excused Eq compile compile :=
  (of_steady steady).mono fun _ _ related => related.1

/-- What a compilation gives, whatever came before, echoes itself. -/
theorem of_ensures {post : α → List Notice → Prop} (ensures : compile.Ensures post) :
    Echo excused Eq compile compile :=
  have blind : compile.Blind := ensures.mono fun _ _ _ => trivial
  refl blind.steady

end Echo

end Compile

/-- Two conversions that give related results, bind the same literals and leave the same reasons. -/
def Convert.Echo {α β : Type} (relation : α → β → Prop) (convert : Convert α)
    (convert' : Convert β) : Prop :=
  ∀ slot, ∃ result result' literals notices notices',
    convert.Gives slot result literals notices ∧ convert'.Gives slot result' literals notices' ∧
      relation result result' ∧ notices.map Notice.reason = notices'.map Notice.reason

namespace Convert.Echo

variable {α β γ δ : Type} {excused : Fault → Prop} {relation : α → β → Prop}
  {convert : Convert α} {convert' : Convert β}

/-- Related results at once are related. -/
theorem pure {result : α} {result' : β} (related : relation result result') :
    Echo relation (pure result) (pure result') :=
  fun slot => ⟨_, _, _, _, _, gives_pure result slot, gives_pure result' slot, related, rfl⟩

/-- Two conversions that echo each other are followed by two that do. -/
theorem bind {final : γ → δ → Prop} {next : α → Convert γ} {next' : β → Convert δ}
    (echo : Echo relation convert convert')
    (then_ : ∀ result result', relation result result' →
      Echo final (next result) (next' result')) :
    Echo final (convert >>= next) (convert' >>= next') := by
  intro slot
  obtain ⟨result, result', literals, notices, notices', gives, gives', related, same⟩ := echo slot
  -- Both go on from the slot behind the literals that they share.
  obtain ⟨last, last', more, given, given', ends, ends', related', same'⟩ :=
    then_ result result' related (slot + literals.length)
  refine ⟨last, last', _, _, _, gives.bind ends, gives'.bind ends', related', ?_⟩
  rw [List.map_append, List.map_append, same, same']

/-- As parts of compilations they echo each other as well. -/
theorem lift (echo : Echo relation convert convert') :
    Compile.Echo excused relation convert.lift convert'.lift := by
  -- Below a leaf only the number of bindings is known, and that is the same on both sides.
  intro context context' echoes
  obtain ⟨result, result', literals, notices, notices', gives, gives', related, same⟩ :=
    echo context.bindings.length
  show AgreeUnless _ _ (.ok (convert context)) (.ok (convert' context'))
  rw [gives context rfl, gives' context' (congrArg List.length echoes.bindings.symm)]
  exact .gave ⟨related, echoes.extend literals same⟩

end Convert.Echo

namespace Compiled

variable {Native Argument : Type}

/-- What two runs compile whose compilations echo each other: both are refused, or both give one. -/
theorem agree_run (target : Target) (settings : Settings) {excused : Fault → Prop}
    {relation : Native → Native → Prop}
    {compile compile' : Compile (Native × OrderedMap Value Argument)}
    (echo : Compile.Echo excused (fun result result' => relation result.1 result'.1 ∧
      result.2 = result'.2) compile compile') :
    AgreeUnless excused (fun compiled compiled' => relation compiled.query compiled'.query ∧
        compiled.parameters = compiled'.parameters ∧
          compiled.notices.map Notice.reason = compiled'.notices.map Notice.reason)
      (run target settings compile) (run target settings compile') := by
  refine .bind (echo .empty .empty (.refl _)) fun given given' ⟨⟨related, same⟩, echoes⟩ => ?_
  obtain ⟨⟨query, parameters⟩, after⟩ := given
  obtain ⟨⟨query', parameters'⟩, after'⟩ := given'
  -- There are equally many notices, so that a strict compiler refuses both or none.
  have counted : after.notices.isEmpty = after'.notices.isEmpty := by
    rw [← List.isEmpty_map (f := Notice.reason), echoes.reasons, List.isEmpty_map]
  dsimp only
  rw [counted]
  split
  · exact .refused
  · exact .gave ⟨related, same, echoes.reasons⟩

end Compiled

/-- Requests agree whose conversions echo each other, for one filter is written like another. -/
theorem Contentful.agree_compile_of_echo {settings : Settings} {everyLocale : Value}
    {query query' : Query} {own own' : List Condition} {excused : Fault → Prop}
    (echo : Compile.Echo excused (fun result result' => result.1 = result'.1 ∧
      result.2 = result'.2) (convertQuery settings everyLocale query own)
        (convertQuery settings everyLocale query' own')) :
    AgreeUnless excused (fun compiled compiled' => compiled.query = compiled'.query ∧
        compiled.parameters = compiled'.parameters ∧
          compiled.notices.map Notice.reason = compiled'.notices.map Notice.reason)
      (compile settings everyLocale query own) (compile settings everyLocale query' own') := by
  -- Whether the request can be written hangs on its parameters, which are the same.
  refine (Compiled.agree_run .contentful settings echo).bind fun compiled compiled' same => ?_
  rw [← same.1]
  split
  · exact .gave same
  · exact .refused

end ContentQuery
