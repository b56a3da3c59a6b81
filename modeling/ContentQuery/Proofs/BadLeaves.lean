import ContentQuery.Proofs.Contentful.Attempts
import ContentQuery.Proofs.Degradation
import ContentQuery.Proofs.EntryForms
import ContentQuery.Proofs.Groq.Attempts
import ContentQuery.Proofs.Qdrant.Attempts

/-! Leaves that a target cannot carry: which are dropped with a notice, and which refuse a query. -/

namespace ContentQuery

/-- What an outcome comes to is not changed by what is made of it, if the notices stay. -/
theorem ComesTo.map {Compiled Output : Type} {refusal? : Attempt → Option Fault}
    {carries overlong : Attempt → Bool} {attempts : List Attempt}
    {notices : Compiled → List Notice} {notices' : Output → List Notice}
    {outcome : Except Fault Compiled} {make : Compiled → Output}
    (comes : ComesTo refusal? carries overlong attempts notices outcome)
    (same : ∀ compiled, notices' (make compiled) = notices compiled) :
    ComesTo refusal? carries overlong attempts notices' (outcome.map make) := by
  unfold ComesTo at *
  -- A fault stays the fault, and what was compiled keeps its notices.
  split at comes
  · rw [comes]
    rfl
  · rcases comes with ⟨compiled, rfl, told⟩ | ⟨rfl, heavy⟩
    · exact .inl ⟨make compiled, rfl, by rw [same]; exact told⟩
    · exact .inr ⟨rfl, heavy⟩

/-- Items that are read as conditions are nodes. -/
theorem Condition.nodes_of_readItems {limit : DepthLimit} {depth start : Nat}
    {position : Position} {step : Nat → Step} {items : List Value} {conditions : List Condition}
    (read : readItems limit depth position step start items = .ok conditions) :
    ∀ given ∈ items, ∃ node : Node, given = node.toValue := by
  induction items generalizing start conditions with
  | nil => exact nofun
  | cons item rest ih =>
    obtain ⟨condition, first, read⟩ := ok_of_bind read
    obtain ⟨others, later, -⟩ := ok_of_bind read
    refine List.forall_mem_cons.mpr ⟨?_, ih later⟩
    -- Everything that is no node is refused, after its depth has been looked at.
    cases item with
    | node field relation value all any negated =>
      exact ⟨⟨field, relation, value, all, any, negated⟩, rfl⟩
    | _ =>
      obtain ⟨_, -, refused⟩ := ok_of_bind first
      exact nomatch refused

namespace Compiler

/-- What a compiler tries of conditions: every leaf, except on flat parameters. -/
def attempts : Compiler → List Condition → List Attempt
  | .groq _ | .qdrant _ => Condition.leavesAll
  | .contentful _ _ => Contentful.attemptsAll

/-- The refusal that an attempt of a compiler leads to. -/
def refusal? : Compiler → Attempt → Option Fault
  | .groq _ => Groq.refusal?
  | .contentful _ _ => Contentful.refusal?
  | .qdrant _ => Qdrant.refusal?

/-- Whether a compiler carries an attempt over. -/
def carries : Compiler → Attempt → Bool
  | .groq _ => Groq.carries
  | .contentful _ _ => Contentful.carries
  | .qdrant configuration => Qdrant.carries configuration.payloadPrefix

/-- Whether a compiler carries an attempt over with an integer that the log may fail to write. -/
def overlong : Compiler → Attempt → Bool
  | .groq _ => fun _ => false
  | .contentful _ _ => Contentful.overlong
  | .qdrant configuration => Qdrant.overlong configuration.payloadPrefix

/-- A query that compiles without conditions comes to what is tried of its own conditions. -/
theorem compileConditions_comesTo {compiler : Compiler} {query : Query} {own : List Condition}
    {bare : Output} (lenient : compiler.settings.strict.isTruthy = false)
    (built : compiler.compileConditions query [] = .ok bare) :
    ComesTo compiler.refusal? compiler.carries compiler.overlong (compiler.attempts own)
      Output.notices (compiler.compileConditions query own) := by
  -- Each target has its own attempts, and its own account of them.
  cases compiler with
  | groq settings =>
    obtain ⟨compiled, ran, -⟩ := exists_of_map built
    exact (Groq.compile_comesTo lenient ran).map fun _ => rfl
  | contentful settings everyLocale =>
    obtain ⟨compiled, ran, -⟩ := exists_of_map built
    exact (Contentful.compile_comesTo lenient ran).map fun _ => rfl
  | qdrant configuration =>
    obtain ⟨compiled, ran, -⟩ := exists_of_map built
    exact (Qdrant.compile_comesTo lenient ran).map fun _ => rfl

/-- A query is compiled with the conditions that its filter is read as. -/
theorem compileQuery_of_accepted {compiler : Compiler} {query : Query} {nodes : List Value}
    {own : List Condition}
    (accepted : Condition.readAll compiler.settings.depthLimit "filter" nodes = .ok own) :
    compiler.compileQuery { query with filter := nodes } =
      compiler.compileConditions query own := by
  have raw : Query.readRawFilter compiler.settings.depthLimit nodes = .ok nodes :=
    Node.ofItems_nodes (Condition.nodes_of_readItems accepted)
  rw [← compileConditions_filter compiler query nodes own, compileQuery_eq, conditionsOf, raw]
  exact congrArg (· >>= compiler.compileConditions { query with filter := nodes }) accepted

/--
A query that compiles without a filter is compiled with any filter that is accepted, unless an
attempt leads to a refusal, and it is told of every attempt that fails. On every target an attempt
refuses where an integer with too many digits has to be written to read its literal or to tell of
it; on flat parameters and payloads a field that is neither a text nor null refuses as well, and on
payloads a range that ends in an integer beyond all numbers. Where no attempt refuses, those two
targets may still fail to log a literal that is carried over with an integer that is too long.
-/
theorem bad_leaves_are_told_or_refused {compiler : Compiler} {query : Query} {nodes : List Value}
    {own : List Condition} {bare : Output} (lenient : compiler.settings.strict.isTruthy = false)
    (accepted : Condition.readAll compiler.settings.depthLimit "filter" nodes = .ok own)
    (built : compiler.compileQuery { query with filter := [] } = .ok bare) :
    ComesTo compiler.refusal? compiler.carries compiler.overlong (compiler.attempts own)
      Output.notices (compiler.compileQuery { query with filter := nodes }) := by
  -- Without a filter there is nothing to read, so that the rest of the query compiles.
  have rest : compiler.compileConditions query [] = .ok bare :=
    (compileConditions_filter compiler query [] []).symm.trans built
  rw [compileQuery_of_accepted accepted]
  exact compileConditions_comesTo lenient rest

/-- A query with a filter and nothing else. -/
def filtered (nodes : List Value) : Query :=
  { Query.everything with filter := nodes }

/-- An integer beyond every number, which nothing but a decision computes. -/
@[irreducible]
def vast : Value :=
  .int (Int.pow 10 400)

/-- No range can hold it. -/
theorem outOfRange_vast : Qdrant.outOfRange vast = true := by
  unfold vast
  decide +kernel

/-- All of its digits can be written. -/
theorem canInspect_vast : vast.canInspect = true := by
  unfold vast
  exact (Text.isWritable_iff _).mpr (by decide +kernel)

/-- Leaves beyond every number, without a path, and with nothing to choose from. -/
def badLeaves : List Value :=
  [.leaf (.text "views") (.text ">") vast, .leaf (.text "a b") (.text "==") (.int 1),
    .leaf (.text "level") (.text "in") (.list [])]

/-- The conditions that these leaves are read as. -/
def badConditions : List Condition :=
  [.leaf (.text "views") (.known .greater) vast, .leaf (.text "a b") (.known .equal) (.int 1),
    .leaf (.text "level") (.known .oneOf) (.list [])]

/-- A compiler to flat parameters without options. -/
def parameters : Compiler := .contentful Settings.standard (.bool false)

/-- A compiler to payload filters without options. -/
def payloads : Compiler := .qdrant ⟨Settings.standard, .null, .text "_draft"⟩

/-- A range that ends in it leads to a refusal. -/
theorem refusal_vast : Qdrant.refusal? (.leaf (.text "views") (.known .greater) vast) =
    some .overflow := by
  show (if Qdrant.outOfRange vast then some Fault.overflow else none) = _
  rw [outOfRange_vast]
  rfl

/-- No literal among them leads to a refusal as a parameter, and none is too long. -/
theorem no_refusal_parameters :
    (parameters.attempts badConditions).findSome? parameters.refusal? = none ∧
      ∀ attempt ∈ parameters.attempts badConditions, parameters.overlong attempt = false := by
  -- None of the three attempts is overlong: what is vast there cannot be sent, and is dropped.
  constructor
  · unfold badConditions vast
    rfl
  · refine List.forall_mem_cons.mpr ⟨?_, List.forall_mem_cons.mpr
      ⟨rfl, List.forall_mem_singleton.mpr rfl⟩⟩
    show (Contentful.carries _ && !vast.canInspect) = false
    rw [canInspect_vast, Bool.not_true, Bool.and_false]

/-- Bad leaves are told of on one target, and one of them refuses the query on another. -/
theorem bad_leaves_are_told_or_refused_vast :
    (∃ output, parameters.compileQuery (filtered badLeaves) = .ok output ∧
        ∃ notice ∈ output.notices, NamesLeaf (.text "a b") (.known .equal) notice) ∧
      payloads.compileQuery (filtered badLeaves) = .error .overflow := by
  constructor
  · obtain ⟨attempted, light⟩ := no_refusal_parameters
    have comes :=
      @bad_leaves_are_told_or_refused parameters Query.everything badLeaves badConditions _ rfl rfl
        rfl
    rw [ComesTo, attempted] at comes
    -- Every literal can be written, so that the log does not fail.
    rcases comes with ⟨output, compiled, told⟩ | ⟨-, attempt, among, heavy⟩
    · exact ⟨output, compiled,
        told (.leaf (.text "a b") (.known .equal) (.int 1)) (.tail _ (.head _)) rfl⟩
    · exact absurd heavy (by simp [light attempt among])
  · have attempted : (payloads.attempts badConditions).findSome? payloads.refusal? =
        some .overflow :=
      (List.findSome?_cons_of_isSome (Option.isSome_of_eq_some refusal_vast)).trans refusal_vast
    have comes :=
      @bad_leaves_are_told_or_refused payloads Query.everything badLeaves badConditions _ rfl rfl
        rfl
    rwa [ComesTo, attempted] at comes

/-- One literal costs a query that is accepted, where it should cost its leaf. -/
theorem vast_bound_refuses_query :
    ∃ own, Condition.readAll payloads.settings.depthLimit "filter"
        [.leaf (.text "views") (.text ">") vast] = .ok own ∧
      payloads.settings.strict.isTruthy = false ∧
      payloads.compileQuery (filtered [.leaf (.text "views") (.text ">") vast]) =
        .error .overflow := by
  -- The conditions are read; the one attempt is refused, and nothing comes before it.
  refine ⟨_, rfl, rfl, ?_⟩
  have comes := @compileConditions_comesTo payloads Query.everything
    [.leaf (.text "views") (.known .greater) vast] _ rfl rfl
  have attempted : (payloads.attempts [.leaf (.text "views") (.known .greater) vast]).findSome?
      payloads.refusal? = some .overflow :=
    (List.findSome?_cons_of_isSome (Option.isSome_of_eq_some refusal_vast)).trans refusal_vast
  rw [ComesTo, attempted] at comes
  exact (compileQuery_of_accepted rfl).trans comes

/-- A field that is an integer costs the query likewise. -/
example : parameters.compileQuery (filtered [.leaf (.int 5) (.text "==") (.int 1)]) =
    .error .mistyped :=
  rfl

end Compiler

end ContentQuery
