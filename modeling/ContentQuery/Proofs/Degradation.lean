import ContentQuery.Proofs.Groq.Pruning
import ContentQuery.Proofs.Qdrant.Pruning

/-! Degrading a filter is deleting what fails in it, with one notice for each deleted node. -/

namespace ContentQuery

open Condition

namespace Output

/-- The notices that come with what was compiled. -/
def notices : Output → List Notice
  | .statement compiled => compiled.notices
  | .request compiled => compiled.notices
  | .scroll compiled => compiled.notices

/-- What was compiled, with other notices. -/
def withNotices (others : List Notice) : Output → Output
  | .statement compiled => .statement { compiled with notices := others }
  | .request compiled => .request { compiled with notices := others }
  | .scroll compiled => .scroll { compiled with notices := others }

end Output

namespace Compiler

/-- The nodes that a compiler drops by themselves; on flat parameters none are told apart. -/
def failing : Compiler → Condition → Bool
  | .groq _ => Groq.failing
  | .contentful _ _ => fun _ => false
  | .qdrant configuration => Qdrant.failing configuration.payloadPrefix

/-- A compiler whose global filter has no failing nodes. -/
def pruned : Compiler → Compiler
  | .groq settings => .groq (settings.pruned Groq.failing)
  | .contentful settings everyLocale =>
    .contentful (settings.pruned fun _ => false) everyLocale
  | .qdrant configuration => .qdrant configuration.pruned

/-- The notices about the filter of a query with certain conditions. -/
def filterNotices (query : Query) (own : List Condition) : Compiler → List Notice
  | .groq settings => (Groq.filterParts settings query own).lift.noticesOf
  | .contentful settings _ => (Contentful.filterOf settings query own).noticesOf
  | .qdrant configuration => (Qdrant.filterOf configuration query own).noticesOf

/--
Where conditions nest, degrading a filter is deleting what fails in it. Each failing node leaves one
notice, inner ones first, and without the failing nodes, and those that nothing is left of, the
query compiles to the same, with no notice about its filter.
-/
theorem degrading_is_deleting {compiler : Compiler} {query : Query} {own : List Condition}
    {output : Output} (nests : compiler.target ≠ .contentful)
    (lenient : compiler.settings.strict.isTruthy = false)
    (built : compiler.compileConditions query own = .ok output) :
    ∃ others, output.notices = compiler.filterNotices query own ++ others ∧
      Noted (failingNodesAll compiler.failing
        (own ++ compiler.settings.globalFilter.conditionList))
        (compiler.filterNotices query own) ∧
        compiler.pruned.filterNotices query (pruneAll compiler.failing own) = [] ∧
          compiler.pruned.compileConditions query (pruneAll compiler.failing own) =
            .ok (output.withNotices others) := by
  -- Both targets delete the same nodes; each has its own pruned compilation.
  cases compiler with
  | groq settings =>
    obtain ⟨compiled, ran, rfl⟩ := exists_of_map built
    obtain ⟨lost, others, rfl, listed, noted, silent, ran'⟩ := Groq.compile_pruned lenient ran
    exact ⟨others, listed, noted, silent, congrArg (Except.map Output.statement) ran'⟩
  | contentful settings everyLocale => exact absurd rfl nests
  | qdrant configuration =>
    obtain ⟨compiled, ran, rfl⟩ := exists_of_map built
    obtain ⟨lost, others, rfl, listed, noted, silent, ran'⟩ := Qdrant.compile_pruned lenient ran
    exact ⟨others, listed, noted, silent, congrArg (Except.map Output.scroll) ran'⟩

/--
Conditions with failing nodes at every depth: an operator that is no payload clause, an alternative
without any path, the negation of both, the negation of nothing, and a choice of nothing.
-/
def brokenConditions : List Condition :=
  [.any [.leaf (.text "title") (.known .startsWith) (.text "x"),
      .leaf (.text "level") (.known .equal) (.int 3)],
    .not (.all [.leaf (.text "a b") (.known .equal) (.int 1),
      .not (.leaf (.text "tags") (.unknown "near") .null)]),
    .not (.all []), .any []]

/-- Settings with a global filter of which one condition fails. -/
def brokenSettings : Settings :=
  { Settings.standard with
    globalFilter := .conditions [] [.leaf (.text "tenant") (.known .equal) (.text "a"),
      .leaf .null (.known .equal) (.text "b")] }

/-- Broken conditions are compiled to what is left of them, with a notice for each failing node. -/
def DeletesBroken (compiler : Compiler) : Prop :=
  ∃ output others, compiler.compileConditions Query.everything brokenConditions = .ok output ∧
    output.notices = compiler.filterNotices Query.everything brokenConditions ++ others ∧
      Noted (failingNodesAll compiler.failing
        (brokenConditions ++ compiler.settings.globalFilter.conditionList))
        (compiler.filterNotices Query.everything brokenConditions) ∧
        compiler.pruned.filterNotices Query.everything
          (pruneAll compiler.failing brokenConditions) = [] ∧
          compiler.pruned.compileConditions Query.everything
            (pruneAll compiler.failing brokenConditions) = .ok (output.withNotices others)

/-- On each target where conditions nest, broken conditions compile to what is left of them. -/
theorem degrading_is_deleting_broken :
    DeletesBroken (.groq brokenSettings) ∧
      DeletesBroken (.qdrant ⟨brokenSettings, .text "data", .text "_draft"⟩) := by
  -- What is said of one compiler is what the theorem says of it, once its query compiles.
  have each (compiler : Compiler) (nests : compiler.target ≠ .contentful)
      (lenient : compiler.settings.strict.isTruthy = false)
      (built : ∃ output, compiler.compileConditions Query.everything brokenConditions =
        .ok output) : DeletesBroken compiler := by
    obtain ⟨output, built⟩ := built
    obtain ⟨others, deleted⟩ := degrading_is_deleting nests lenient built
    exact ⟨output, others, built, deleted⟩
  exact ⟨each _ nofun rfl ⟨_, rfl⟩, each _ nofun rfl ⟨_, rfl⟩⟩

end Compiler

end ContentQuery
