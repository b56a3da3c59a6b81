import ContentQuery.Proofs.Contentful.Paring
import ContentQuery.Proofs.Groq.Paring

/-! Excluding a name changes nothing, unless everything named below a reference is excluded. -/

namespace ContentQuery

/-- A query has the same conditions whatever its projection excludes. -/
theorem Compiler.compileQuery_pared {compiler : Compiler} {query : Query} {own : List Condition}
    {output : Output} (read : compiler.conditionsOf query = .ok own)
    (compiled : compiler.compileConditions query.pared own = .ok output) :
    compiler.compileQuery query.pared = .ok output :=
  (compiler.compileQuery_eq query.pared).trans (bind_ok read compiled)

/--
A query compiles without what its projection excludes where it compiles at all. A request is the
same; a statement is the same but for a pair of braces behind every reference that is expanded to
nothing but exclusions.
-/
theorem exclusions_change_braces_only (query : Query) :
    (∀ settings compiled,
      (Compiler.groq settings).compileQuery query = .ok (.statement compiled) →
        ∃ pared, (Compiler.groq settings).compileQuery query.pared = .ok (.statement pared) ∧
          compiled.parameters = pared.parameters ∧
          compiled.query.text.length =
            pared.query.text.length + 2 * Groq.hollowExpansions settings query ∧
          (compiled.query.text = pared.query.text ↔ Groq.hollowExpansions settings query = 0)) ∧
    (∀ settings everyLocale compiled,
      (Compiler.contentful settings everyLocale).compileQuery query = .ok (.request compiled) →
        ∃ pared, (Compiler.contentful settings everyLocale).compileQuery query.pared =
            .ok (.request pared) ∧
          compiled.query = pared.query ∧ compiled.parameters = pared.parameters) := by
  -- The conditions are read alike in both queries, so that only what a target makes of the
  -- projection has to be compared.
  constructor
  -- A statement is shorter by two characters for each pair of braces that is left out.
  · intro settings compiled built
    obtain ⟨own, read, converted⟩ := Compiler.conditions_of_compileQuery built
    obtain ⟨pared, ran, shorter, parameters⟩ :=
      Groq.pared_of_compile settings query (Groq.statement_of_output converted)
    have output : (Compiler.groq settings).compileConditions query.pared own =
        .ok (.statement pared) := congrArg (Except.map Output.statement) ran
    exact ⟨pared, Compiler.compileQuery_pared read output, parameters, shorter.length,
      shorter.eq_iff⟩
  · intro settings everyLocale compiled built
    obtain ⟨own, read, converted⟩ := Compiler.conditions_of_compileQuery built
    obtain ⟨pared, ran, same⟩ := Contentful.pared_of_compile settings everyLocale query
      (Contentful.request_of_output converted)
    have output : (Compiler.contentful settings everyLocale).compileConditions query.pared own =
        .ok (.request pared) := congrArg (Except.map Output.request) ran
    exact ⟨pared, Compiler.compileQuery_pared read output, same⟩

/-- A query for every document, with some fields of it. -/
def Query.ofFields (fields : List (Value × Value)) : Query :=
  { Query.everything with projection := .map fields }

/-- Names that are excluded on every level, beside others on some of them. -/
def exclusionsBeside : List (Value × Value) :=
  [(.text "title", .bool true), (.text "body", .bool false),
    (.text "seo", .map [(.text "image", .bool true), (.text "note", .bool false)]),
    (.text "meta", .map [(.text "note", .bool false)]),
    (.text "author", .map [(.text "expand", .bool true),
      (.text "projection", .map [(.text "name", .bool true), (.text "email", .bool false)])])]

/-- Names that are excluded beside others change neither a statement nor a request. -/
theorem exclusions_change_braces_only_beside :
    (∃ compiled pared, (Compiler.groq .standard).compileQuery (.ofFields exclusionsBeside) =
        .ok (.statement compiled) ∧
      (Compiler.groq .standard).compileQuery (Query.ofFields exclusionsBeside).pared =
        .ok (.statement pared) ∧ compiled.query.text = pared.query.text) ∧
    ∃ compiled pared, (Compiler.contentful .standard .null).compileQuery
        (.ofFields exclusionsBeside) = .ok (.request compiled) ∧
      (Compiler.contentful .standard .null).compileQuery (Query.ofFields exclusionsBeside).pared =
        .ok (.request pared) ∧ compiled.parameters = pared.parameters := by
  -- Something is left of every expansion, so that there are no braces to lose.
  obtain ⟨statements, requests⟩ := exclusions_change_braces_only (.ofFields exclusionsBeside)
  obtain ⟨pared, ran, -, -, same⟩ := statements .standard _ rfl
  obtain ⟨pared', ran', -, same'⟩ := requests .standard .null _ rfl
  exact ⟨⟨_, pared, rfl, ran, same.mpr (by decide)⟩, ⟨_, pared', rfl, ran', same'⟩⟩

/-- A reference of which one name is excluded, and nothing else is said. -/
def hollowReference : List (Value × Value) :=
  [(.text "author", .map [(.text "expand", .bool true),
    (.text "projection", .map [(.text "name", .bool false)])])]

/-- Without the exclusion, that reference is resolved as a whole, and not to an empty object. -/
theorem hollow_reference_braced :
    ∃ compiled pared, (Compiler.groq .standard).compileQuery (.ofFields hollowReference) =
        .ok (.statement compiled) ∧
      (Compiler.groq .standard).compileQuery (Query.ofFields hollowReference).pared =
        .ok (.statement pared) ∧
      compiled.query.projection = some [.expanded "author" []] ∧
      pared.query.projection = some [.resolved "author"] ∧
      compiled.query.text ≠ pared.query.text :=
  ⟨_, _, rfl, rfl, rfl, rfl, by decide⟩

end ContentQuery
