import ContentQuery.Proofs.Contentful.Options
import ContentQuery.Proofs.Degradation
import ContentQuery.Proofs.Groq.Expansions
import ContentQuery.Proofs.Qdrant.Options

/-! The depth to which references are resolved: bounded, and noted alike, on all targets. -/

namespace ContentQuery

/-- Whether a text is one name as it stands, without a line break behind it. -/
def isIdentifier (name : String) : Bool :=
  isNameChars name.toList

/-- An identifier is a name. -/
theorem isName_of_isIdentifier {name : String} (plain : isIdentifier name = true) :
    isName name = true := by
  -- What is read of a text as a name leaves out a line break at its end, and here there is none.
  have unbroken : withoutFinalBreak name.toList = name.toList := by
    refine if_neg fun last => ?_
    have tail := Groq.isNameTail_of_isNameChars plain _ (List.mem_of_getLast? last)
    exact absurd tail (by decide)
  rwa [isName, unbroken]

namespace Groq

/-- The longest chain of expansions in the projection of a statement, as its text is read. -/
def Statement.chain? (statement : Statement) : Option Nat :=
  match statement.projection with
  | none => some 0
  | some attributes => (readProjection (projectionText attributes)).map Entry.deepest

/-- The chain that is read is that of the attributes, where the fields are named by texts. -/
theorem chain_of_compile {settings : Settings} {query : Query} {conditions : List Condition}
    {compiled : Compiled Statement Value} {accepts : String → Bool} {fields : List Projection}
    (ran : compile settings query conditions = .ok compiled)
    (reads : Projection.ReadsTo settings.depthLimit query.projection fields)
    (named : Projection.areNamed accepts fields = true) :
    compiled.query.chain? = some (Attribute.deepest (compiled.query.projection.getD [])) := by
  unfold Statement.chain?
  cases some_ : compiled.query.projection with
  | none => rfl
  | some attributes =>
    -- The text is read as the attributes and the system fields, which expand nothing.
    obtain ⟨formed, keyed, -⟩ := legible_of_compile ran reads named some_
    have inside := deepest_entries (delivered attributes)
      ((Attribute.allWellFormed_iff _).mpr (wellFormed_delivered formed))
    rw [Attribute.entries_eq_map, deepest_delivered] at inside
    dsimp only
    rw [readProjection_projectionText formed keyed, Option.map_some, inside]
    rfl

end Groq

namespace Output

/--
Whether the depth that an output asks for, or resolves by itself, is what a limit leaves of a
request and of the expansions of a projection. A parameter that is missing asks for nothing.
-/
def ReachesTo (requested expansions limit : Nat) : Output → Prop
  | .statement compiled => compiled.query.chain? = some (min expansions limit)
  | .request compiled =>
    (compiled.parameters.get? (.text "include")).getD (.int 0) =
      .int (min (max requested expansions) limit : Nat)
  | .scroll compiled =>
    (compiled.parameters.get? (.text "resolve_depth")).getD (.value (.int 0)) =
      .value (.int (min (max requested expansions) limit : Nat))

end Output

namespace Compiler

/--
The depth of references is bounded by the limit of the compiler on every target, and a notice says
so exactly where the limit is below what the query requests or what its projection expands.
-/
theorem reference_depth_bounded {compiler : Compiler} {query : Query} {output : Output}
    {fields : List Projection} (built : compiler.compileQuery query = .ok output)
    (passes : query.params.entries = [])
    (reads : Projection.ReadsTo compiler.settings.depthLimit query.projection fields)
    (named : Projection.areNamed isIdentifier fields = true) :
    output.ReachesTo query.resolve.levelCount.toNat (Projection.deepest fields)
        compiler.settings.maxResolveDepth ∧
      (Mentions .resolveDepthClamped output.notices ↔ compiler.settings.maxResolveDepth <
        max query.resolve.levelCount.toNat (Projection.deepest fields)) := by
  obtain ⟨own, -, converted⟩ := conditions_of_compileQuery built
  cases compiler with
  | groq settings =>
    obtain ⟨compiled, ran, rfl⟩ := exists_of_map converted
    -- The chain is a property of the text, which is that of the attributes it is made of.
    obtain ⟨granted, cut⟩ :=
      Groq.resolves_of_compile (fun _ => isName_of_isIdentifier) reads named ran
    refine ⟨?_, cut⟩
    rw [Output.ReachesTo, Groq.chain_of_compile ran reads named, granted]
  | contentful settings everyLocale =>
    obtain ⟨compiled, ran, rfl⟩ := exists_of_map converted
    -- With nothing passed through, the parameters are those that were compiled.
    obtain ⟨sent, held, through⟩ := Contentful.options_of_compile ran
    obtain ⟨fields', reads', asked, cut⟩ := held.resolves
    obtain rfl := reads.unique reads'
    refine ⟨?_, cut⟩
    rw [passes, passed] at through
    rw [Output.ReachesTo, through, asked]
    exact Contentful.getD_includeLevels _ _
  | qdrant configuration =>
    obtain ⟨compiled, ran, rfl⟩ := exists_of_map converted
    -- Here too the parameter is compiled, but what is missing stands for nothing requested.
    obtain ⟨sent, held, through⟩ := Qdrant.options_of_compile reads named ran
    refine ⟨?_, held.cut⟩
    rw [passes, passed] at through
    rw [Output.ReachesTo, through]
    exact held.resolves

/-- A projection that expands a reference inside another, and one inside a field. -/
def expandingProjection : Value :=
  .map [(.text "author", .map [(.text "expand", .bool true), (.text "projection",
      .map [(.text "name", .bool true), (.text "team", .map [(.text "expand", .bool true)])])]),
    (.text "cover", .map [(.text "image", .map [(.text "expand", .bool true)])])]

/-- A query that asks for one level of references and expands two. -/
def expandingQuery : Query :=
  { Query.everything with projection := expandingProjection, resolve := .flag true }

/-- Settings that grant one level of references. -/
def shallowSettings : Settings :=
  { Settings.standard with maxResolveDepth := 1 }

/-- Two levels of expansions are cut to the one that is granted, with a notice. -/
def CutsExpansions (compiler : Compiler) : Prop :=
  ∃ output, compiler.compileQuery expandingQuery = .ok output ∧ output.ReachesTo 1 2 1 ∧
    Mentions .resolveDepthClamped output.notices

/-- Every target resolves one level of two where one is granted, and says so. -/
theorem reference_depth_bounded_expanding :
    CutsExpansions (.groq shallowSettings) ∧
      CutsExpansions (.contentful shallowSettings (.bool false)) ∧
        CutsExpansions (.qdrant ⟨shallowSettings, .text "data", .text "_draft"⟩) := by
  have each (compiler : Compiler) (same : compiler.settings = shallowSettings)
      (built : ∃ output, compiler.compileQuery expandingQuery = .ok output) :
      CutsExpansions compiler := by
    obtain ⟨output, built⟩ := built
    -- The projection is read alike on all targets, by settings that they share.
    have reads : Projection.ReadsTo compiler.settings.depthLimit expandingQuery.projection
        [.expanded (.text "author") [.included (.text "name"), .resolved (.text "team")],
          .nested (.text "cover") [.resolved (.text "image")]] := by
      rw [same]
      exact ⟨_, rfl⟩
    obtain ⟨reached, cut⟩ := reference_depth_bounded built rfl reads (by decide)
    rw [same] at reached cut
    exact ⟨output, built, reached, cut.mpr (by decide)⟩
  exact ⟨each _ rfl ⟨_, rfl⟩, each _ rfl ⟨_, rfl⟩, each _ rfl ⟨_, rfl⟩⟩

end Compiler

end ContentQuery
