import ContentQuery.Proofs.PassThrough
import ContentQuery.Proofs.Pruning
import ContentQuery.Proofs.Writing

/-! Attempts to carry over what conditions are made of, and what a query comes to when one fails. -/

namespace ContentQuery

namespace Compile

variable {α β : Type} {compile : Compile α} {next : α → Compile β} {refusal refusal' : Option Fault}

/-- A compilation is refused where there is a refusal, and gives what meets a condition if not. -/
def Decides (compile : Compile α) (refusal : Option Fault) (post : α → List Notice → Prop) : Prop :=
  match refusal with
  | some fault => compile.Refuses fault
  | none => ∃ result notices, compile.Gives result notices ∧ post result notices

namespace Decides

/-- A weaker condition is met as well. -/
theorem mono {post weaker : α → List Notice → Prop} (decides : compile.Decides refusal post)
    (implies : ∀ result notices, post result notices → weaker result notices) :
    compile.Decides refusal weaker := by
  -- A refusal promises nothing of a result.
  cases refusal with
  | some fault => exact decides
  | none =>
    obtain ⟨result, notices, gives, met⟩ := decides
    exact ⟨result, notices, gives, implies _ _ met⟩

/-- A result that is given at once is not refused. -/
theorem pure {result : α} {post : α → List Notice → Prop} (met : post result []) :
    Decides (pure result) none post :=
  ⟨result, [], gives_pure result, met⟩

/-- A degradation is not refused. -/
theorem degrade {reason : Reason} {message : String} {field operator : Value}
    {post : Unit → List Notice → Prop} (met : post () [⟨reason, .text message, field, operator⟩]) :
    (Compile.degrade reason message field operator).Decides none post :=
  ⟨(), _, gives_degrade reason message field operator, met⟩

/-- A refusal is the one that there is. -/
theorem refuse {fault : Fault} {post : α → List Notice → Prop} :
    (Compile.refuse fault : Compile α).Decides (some fault) post :=
  fun _ => rfl

/-- A result that is given with a notice is not refused. -/
theorem noted {reason : Reason} {message : String} {field operator : Value} {result : α}
    {post : α → List Notice → Prop} (met : post result [⟨reason, .text message, field, operator⟩]) :
    Decides (do Compile.degrade reason message field operator; return result) none post :=
  ⟨result, _, (gives_degrade reason message field operator).bind (gives_pure result), met⟩

/-- The refusal of two compilations in a row is that of the first, or else that of the second. -/
theorem bind {post : α → List Notice → Prop} {final : β → List Notice → Prop}
    (first : compile.Decides refusal post)
    (then_ : ∀ result notices, post result notices →
      (next result).Decides refusal' fun result' notices' => final result' (notices ++ notices')) :
    (compile >>= next).Decides (refusal.or refusal') final := by
  cases refusal with
  | some fault => exact Refuses.bind first
  | none =>
    obtain ⟨result, notices, gives, met⟩ := first
    have second := then_ result notices met
    -- The first gives its result, so that the second is the one to decide.
    cases refusal' with
    | some fault => exact gives.refuses second
    | none =>
      obtain ⟨result', notices', gives', met'⟩ := second
      exact ⟨result', notices ++ notices', gives.bind gives', met'⟩

/-- What follows a compilation that is never refused decides for both. -/
theorem after {post : α → List Notice → Prop} {final : β → List Notice → Prop}
    (first : compile.Decides none post)
    (then_ : ∀ result notices, post result notices →
      (next result).Decides refusal' fun result' notices' => final result' (notices ++ notices')) :
    (compile >>= next).Decides refusal' final :=
  first.bind then_

/-- What comes before a compilation that is never refused decides for both. -/
theorem before {post : α → List Notice → Prop} {final : β → List Notice → Prop}
    (first : compile.Decides refusal post)
    (then_ : ∀ result notices, post result notices →
      (next result).Decides none fun result' notices' => final result' (notices ++ notices')) :
    (compile >>= next).Decides refusal final := by
  have both := first.bind then_
  rwa [Option.or_none] at both

/-- What is made of a result is refused with the result. -/
theorem map {post : α → List Notice → Prop} {final : β → List Notice → Prop} {make : α → β}
    (decides : compile.Decides refusal post)
    (met : ∀ result notices, post result notices → final (make result) notices) :
    Decides (do return make (← compile)) refusal final :=
  decides.before fun result notices given => .pure (by rw [List.append_nil]; exact met _ _ given)

/-- A run that gives a result was not refused. -/
theorem of_run {post : α → List Notice → Prop} (decides : compile.Decides refusal post)
    {context after : Context} {result : α} (ran : compile context = .ok (result, after)) :
    refusal = none ∧ after.bindings = context.bindings := by
  cases refusal with
  | some fault =>
    rw [show compile context = .error fault from decides context] at ran
    exact nomatch ran
  | none =>
    obtain ⟨result', notices, gives, -⟩ := decides
    -- It gives one result, and what it gives binds nothing.
    obtain ⟨-, rfl⟩ := gives.of_run ran
    exact ⟨rfl, by simp [Context.extend]⟩

end Decides

end Compile

/-- The refusal that the reading of a literal leads to, unless its fault is one of form. -/
def refusalOf {α : Type} : Except FormatFault α → Option Fault
  | .error fault => if fault.isUnwritable then some .unwritable else none
  | .ok _ => none

/-- A literal that is read leads to no refusal. -/
theorem refusalOf_of_ok {α : Type} {read : Except FormatFault α} {given : α}
    (made : read = .ok given) : refusalOf read = none := by
  rw [made]
  rfl

/-- Whether a value is neither a text nor null, so that nothing reads it as a field. -/
def Value.isMistyped : Value → Bool
  | .null | .text _ => false
  | _ => true

/-- A leaf is dropped for its literal with a notice that names it, unless that is a refusal. -/
theorem decides_dropInvalidValue {α : Type} (field : Value) (operator : Operator)
    {read : Except FormatFault α} {fault : FormatFault} (broken : read = .error fault) :
    (dropInvalidValue field operator fault).Decides (refusalOf read)
      fun _ notices => ∃ notice ∈ notices, NamesLeaf field (.known operator) notice := by
  subst broken
  unfold dropInvalidValue refusalOf
  dsimp only
  -- A fault of form is noted, and every other ends the compilation.
  split
  · exact .refuse
  · exact .degrade ⟨_, List.mem_singleton_self _, rfl, rfl, by simp⟩

/-- What a compiler tries to carry over to its target. -/
inductive Attempt where
  /-- A comparison of a field with a literal. -/
  | leaf (field : Value) (comparison : Comparison) (value : Value)
  /-- The membership that alternatives on one field come to. -/
  | membership (field : Value) (values : List Value)
  /-- Alternatives that cannot be joined, of which the first one is kept. -/
  | across (branches : List Condition)
  /-- A negation of what no operator denies, which is dropped. -/
  | negation (inner : Condition)

/-- Whether a notice says that an attempt has failed. -/
def Attempt.Names : Attempt → Notice → Prop
  | .leaf field comparison _, notice => NamesLeaf field comparison notice
  | .membership field _, notice => notice.field = field ∧
      notice.operator = .text Shape.any.word ∧ notice.reason ∈ [.invalidField, .invalidValue]
  | .across _, notice =>
      notice.operator = .text Shape.any.word ∧ notice.reason = .orAcrossFields
  | .negation _, notice =>
      notice.operator = .text Shape.not.word ∧ notice.reason ∈ [.matchNothing, .complexNot]

/-- Whether the literal of a leaf cannot be shown, for an integer in it is too long. -/
def Attempt.isOverlong : Attempt → Bool
  | .leaf _ _ value => !value.canInspect
  | .membership _ _ | .across _ | .negation _ => false

namespace Condition

mutual

/-- The leaves of a condition, where all of them are tried. -/
def leaves : Condition → List Attempt
  | .leaf field comparison value => [.leaf field comparison value]
  | .all conditions => leavesAll conditions
  | .any conditions => leavesAll conditions
  | .not condition => leaves condition
termination_by structural input => input

/-- The leaves of conditions, one condition after the other. -/
def leavesAll : List Condition → List Attempt
  | [] => []
  | condition :: rest => leaves condition ++ leavesAll rest
termination_by structural input => input

end

end Condition

section Told

variable {carries : Attempt → Bool} {attempts attempts' : List Attempt}
  {notices notices' : List Notice}

/-- A notice is there about every attempt that fails. -/
def Told (carries : Attempt → Bool) (attempts : List Attempt) (notices : List Notice) : Prop :=
  ∀ attempt ∈ attempts, carries attempt = false → ∃ notice ∈ notices, attempt.Names notice

/-- Without an attempt, none has failed. -/
theorem told_nil : Told carries [] notices :=
  nofun

/-- A notice is there about an attempt, unless it is carried over. -/
def Noticed (carries : Attempt → Bool) (attempt : Attempt) (notices : List Notice) : Prop :=
  carries attempt = false → ∃ notice ∈ notices, attempt.Names notice

/-- A single attempt is told of when there is a notice about it. -/
theorem told_single {attempt : Attempt} (noticed : Noticed carries attempt notices) :
    Told carries [attempt] notices := by
  intro other member failed
  obtain rfl := List.mem_singleton.mp member
  exact noticed failed

/-- What is made of a single attempt is refused as the attempt is. -/
theorem Compile.Decides.single {α : Type} {compile : Compile α} {attempt : Attempt}
    {refusal? : Attempt → Option Fault} {post : α → List Notice → Prop}
    (decides : compile.Decides (refusal? attempt) post) :
    compile.Decides ([attempt].findSome? refusal?) post := by
  -- A single attempt refuses when it does.
  have same : [attempt].findSome? refusal? = refusal? attempt := by
    rw [List.findSome?_cons]
    split <;> simp_all
  rwa [same]

/-- Further notices change nothing. -/
theorem Told.within (told : Told carries attempts notices) (kept : notices ⊆ notices') :
    Told carries attempts notices' := by
  intro attempt member failed
  obtain ⟨notice, there, names⟩ := told attempt member failed
  exact ⟨notice, kept there, names⟩

/-- Notices about all attempts are there about some of them. -/
theorem Told.among (told : Told carries attempts notices) (some_ : attempts' ⊆ attempts) :
    Told carries attempts' notices :=
  fun attempt member => told attempt (some_ member)

/-- Notices about attempts in two lists are there in both lists together. -/
theorem Told.append (told : Told carries attempts notices)
    (told' : Told carries attempts' notices') :
    Told carries (attempts ++ attempts') (notices ++ notices') :=
  List.forall_mem_append.mpr
    ⟨told.within (List.subset_append_left _ _), told'.within (List.subset_append_right _ _)⟩

/--
A query is refused for the first attempt that leads to a refusal.

Where none does, the query is compiled, and it is told of every attempt that fails; only a literal
that is carried over with an integer too long for the log may refuse it then.
-/
def ComesTo {Compiled : Type} (refusal? : Attempt → Option Fault)
    (carries overlong : Attempt → Bool) (attempts : List Attempt)
    (notices : Compiled → List Notice) (outcome : Except Fault Compiled) : Prop :=
  match attempts.findSome? refusal? with
  | some fault => outcome = .error fault
  | none => (∃ compiled, outcome = .ok compiled ∧ Told carries attempts (notices compiled)) ∨
      (outcome = .error .unwritable ∧ ∃ attempt ∈ attempts, overlong attempt = true)

end Told

section Finished

variable {Native Argument Filter : Type} {target : Target} {settings : Settings}
  {first : Compile Filter} {next : Filter → Compile (Native × OrderedMap Value Argument)}

/-- A refusal of the filter is one of the query. -/
theorem Compiled.run_of_refuses {fault : Fault} (refused : first.Refuses fault) :
    run target settings (first >>= next) = .error fault := by
  unfold run
  rw [show (first >>= next) .empty = .error fault from refused.bind .empty]
  rfl

/-- A query is compiled when its filter is, and what follows keeps the notices about it. -/
theorem Compiled.run_of_gives (lenient : settings.strict.isTruthy = false) {filter : Filter}
    {bindings : List Value} {notices : List Notice}
    (gives : first .empty = .ok (filter, ⟨bindings, notices⟩))
    (follows : ∃ result after, next filter ⟨bindings, notices⟩ = .ok (result, after) ∧
      notices <+: after.notices) :
    ∃ compiled, run target settings (first >>= next) = .ok compiled ∧
      notices <+: compiled.notices := by
  -- A run that is not strict does not mind the notices.
  obtain ⟨⟨native, parameters⟩, after, ended, kept⟩ := follows
  have gave : (first >>= next) .empty = .ok ((native, parameters), after) := by
    rw [Compile.bind_apply, gives]
    exact ended
  exact ⟨_, run_of_ok gave (by rw [lenient, Bool.false_and]), kept⟩

/-- Options that are given once are given whatever was noted, and parameters are passed through. -/
theorem passThrough_of_run {options : Compile (OrderedMap Value Argument)}
    {post : OrderedMap Value Argument → Prop} (steady : options.Steady post)
    {taken taken' : Value → Bool} {what : String} {wrap : Value → Argument}
    {entries : List (Value × Value)} {native native' : Native} {context after : Context}
    {result : Native × OrderedMap Value Argument}
    (ran : (do
      let own ← options
      let parameters ← passThrough taken what wrap entries own
      return (native, parameters)) context = .ok (result, after)) (notices : List Notice) :
    ∃ result after, (do
      let own ← options
      let parameters ← passThrough taken' what wrap entries own
      return (native', parameters)) (⟨context.bindings, notices⟩ : Context) = .ok (result, after) ∧
        result.1 = native' ∧ notices <+: after.notices := by
  -- The options come out as before, with the same notices behind other ones.
  obtain ⟨own, between, chosen, -⟩ := Compile.ok_of_bind ran
  obtain ⟨-, given, -, gives⟩ := steady.of_run chosen
  obtain ⟨more, passedOn⟩ := gives_passThrough taken' wrap what entries own
  refine ⟨(native', passed taken' wrap entries own), ⟨between.bindings ++ [],
    (notices ++ given) ++ more⟩, ?_, rfl, ?_⟩
  · rw [Compile.bind_apply, gives notices]
    show (passThrough taken' what wrap entries own >>= _) _ = _
    rw [Compile.bind_apply, passedOn]
    rfl
  · rw [List.append_assoc]
    exact List.prefix_append _ _

/--
A query that is compiled with another filter comes to what its own attempts do, for nothing else
refuses it, what follows the filter goes on in the same way, and only an overlong attempt makes a
filter that does not pass the last test.
-/
theorem comesTo_of_decides {refusal? : Attempt → Option Fault} {carries overlong : Attempt → Bool}
    {attempts : List Attempt} {first first' : Compile Native}
    {next : Native → Compile (Native × OrderedMap Value Argument)} {test : Native → Bool}
    {bare : Compiled Native Argument} (lenient : settings.strict.isTruthy = false)
    (built : Compiled.run target settings (first >>= next) = .ok bare) (blind : first.Blind)
    (decided : first'.Decides (attempts.findSome? refusal?) fun filter notices =>
      Told carries attempts notices ∧
        (test filter = false → ∃ attempt ∈ attempts, overlong attempt = true))
    (follows : ∀ filter filter' context result after notices,
      next filter context = .ok (result, after) →
        ∃ result after, next filter' ⟨context.bindings, notices⟩ = .ok (result, after) ∧
          result.1 = filter' ∧ notices <+: after.notices) :
    ComesTo refusal? carries overlong attempts Compiled.notices (do
      let made ← Compiled.run target settings (first' >>= next)
      if test made.query then return made else throw .unwritable) := by
  obtain ⟨after, gave, -, -⟩ := Compiled.ok_of_run built
  obtain ⟨filter, between, converted, ended⟩ := Compile.ok_of_bind gave
  -- The other filter has bound nothing, so that what follows finds the same context.
  obtain ⟨notices, rfl, -⟩ := blind.of_run converted
  unfold ComesTo
  cases refused : attempts.findSome? refusal? with
  | some fault =>
    rw [refused] at decided
    rw [Compiled.run_of_refuses decided]
    rfl
  | none =>
    rw [refused] at decided
    obtain ⟨filter', notices, gives, told, explained⟩ := decided
    obtain ⟨⟨native, parameters⟩, after', ended', same, kept⟩ :=
      follows filter filter' _ _ _ notices ended
    obtain rfl : native = filter' := same
    have gave' : (first' >>= next) .empty = .ok ((native, parameters), after') := by
      rw [Compile.bind_apply, gives .empty]
      exact ended'
    have ran : Compiled.run target settings (first' >>= next) =
        .ok ⟨native, parameters, after'.notices⟩ :=
      Compiled.run_of_ok gave' (by rw [lenient, Bool.false_and])
    -- What was compiled is given if it passes the last test, and refused if it does not.
    cases tested : test native with
    | true => exact .inl ⟨_, bind_ok ran (if_pos tested), told.within kept.subset⟩
    | false =>
      refine .inr ⟨?_, explained tested⟩
      rw [ran]
      exact if_neg (by simp [tested])

end Finished

end ContentQuery
