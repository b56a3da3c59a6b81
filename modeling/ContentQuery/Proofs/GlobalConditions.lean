import ContentQuery.Proofs.Contentful.Merging
import ContentQuery.Proofs.Groq.RawFilter
import ContentQuery.Proofs.Qdrant.Preservation

/-! Conditions of a compiler: no query is compiled without them, whatever it asks for. -/

namespace ContentQuery

namespace Groq

/-- Wherever the clause of a statement is true, the fragments of global conditions are. -/
def Enforces (own everywhere : List Condition) (compiled : Compiled Statement Value) : Prop :=
  (readClause (Expression.clauseText compiled.query.filter)).isSome ∧
    ∀ truth, ClauseHolds truth (Expression.clauseText compiled.query.filter) →
      -- The placeholders of global conditions come behind those of the query.
      ∀ fragment ∈ (convertAll everywhere (convertAll own .empty).2).1,
        ClauseHolds truth fragment.text

/-- The parts of a filter whose global part is a list of conditions. -/
theorem filterParts_structured {settings : Settings} {nodes : List Value}
    {everywhere : List Condition}
    (structured : settings.globalFilter = .conditions nodes everywhere) (query : Query)
    (own : List Condition) (context : Context) :
    filterParts settings query own context =
      (typeClause query ++ draftClause settings query ++ (convertAll own context).1 ++
          (convertAll everywhere (convertAll own context).2).1,
        (convertAll everywhere (convertAll own context).2).2) := by
  unfold filterParts globalClause
  rw [structured]
  rfl

/-- Every statement enforces the global conditions: they are conjuncts of its clause. -/
theorem enforces_of_compile {settings : Settings} {query : Query} {nodes : List Value}
    {own everywhere : List Condition} {compiled : Compiled Statement Value}
    (structured : settings.globalFilter = .conditions nodes everywhere)
    (ran : compile settings query own = .ok compiled) : Enforces own everywhere compiled := by
  obtain ⟨after, filtered, -⟩ := filter_of_compile ran
  obtain ⟨-, -, -, formed, -⟩ := (ensures_filterParts structured query own).of_run filtered
  obtain ⟨disjuncts, clause, meaning⟩ := Expression.read_clauseText formed
  refine ⟨by simp [clause], fun truth held fragment member => ?_⟩
  -- A fragment is one of the parts, all of which hold where the clause does.
  have inside : fragment ∈ compiled.query.filter := by
    rw [filterParts_structured structured] at filtered
    rw [← (Prod.mk.inj filtered).1]
    exact List.mem_append_right _ member
  obtain ⟨disjuncts', clause', some_⟩ := held
  obtain rfl := Option.some.inj (clause.symm.trans clause')
  exact (clauseHolds_text (formed fragment inside) truth).mpr
    ((meaning truth).mp some_ fragment inside)

end Groq

namespace Qdrant

/-- Wherever a filter holds, the clauses that global conditions are converted to hold. -/
def Enforces (payloadPrefix : Value) (everywhere : List Condition) (compiled : Scroll) : Prop :=
  ∃ results notices, (convertAll payloadPrefix everywhere).Gives results notices ∧
    ∀ truth, FilterHolds truth compiled.query →
      ∀ clause, .clause clause ∈ results → clause.Holds truth

/-- Every scroll enforces the global conditions: their clauses are asked for as a whole. -/
theorem enforces_of_compile {configuration : Configuration} {query : Query}
    {own : List Condition} {compiled : Scroll}
    (ran : compile configuration query own = .ok compiled) :
    Enforces configuration.payloadPrefix configuration.settings.globalFilter.conditionList
      compiled := by
  -- The settings' conditions are merged last, and neither an option nor a parameter has the key of
  -- a filter.
  obtain ⟨after, filtered, -⟩ := filter_of_compile ran
  -- The run is taken apart into the drafts, the query's own conditions, and the global ones.
  unfold filterOf at filtered
  obtain ⟨excluded, between, -, filtered⟩ := Compile.ok_of_bind filtered
  rw [convertAll_append] at filtered
  obtain ⟨converted, _, joined, filtered⟩ := Compile.ok_of_bind filtered
  obtain ⟨results, reached, -, joined⟩ := Compile.ok_of_bind joined
  obtain ⟨results', _, globally, joined⟩ := Compile.ok_of_bind joined
  obtain ⟨notices, -, gives, -⟩ := (ensures_convertAll configuration.payloadPrefix
    configuration.settings.globalFilter.conditionList).of_run globally
  refine ⟨results', notices, gives, fun truth held clause member => ?_⟩
  cases joined
  have whole := holds_conjuncts_of_kept (show Converted.clause clause ≠ .dropped from nofun) truth
  refine whole.mp fun part inside => ?_
  -- What the clause adds to the filter is among what is asked for, so that there is a filter.
  have asked : part ∈ typeClause query ++ (results ++ results').flatMap conjuncts :=
    List.mem_append_right _ (List.mem_flatMap.mpr ⟨_, List.mem_append_right _ member, inside⟩)
  have made : compiled.query =
      some (.filter (typeClause query ++ (results ++ results').flatMap conjuncts) [] excluded) := by
    rw [← (Prod.mk.inj (Except.ok.inj filtered)).1, if_neg]
    rw [List.isEmpty_eq_false_iff_exists_mem.mpr ⟨part, asked⟩]
    exact Bool.false_ne_true
  rw [made] at held
  simp only [FilterHolds, Clause.Holds, Clause.allHold_iff] at held
  exact held.1 part asked

end Qdrant

namespace Contentful

/-- The parameters that global conditions are converted to are sent, with their values. -/
def Enforces (everywhere : List Condition) (compiled : Request) : Prop :=
  ∃ map notices, (convertInto .empty everywhere).Gives map notices ∧
    ∀ key value, map.get? key = some value →
      (allParameters compiled).get? (.text key) = some value.toValue

/-- Every request enforces the global conditions: nothing else sets their keys in the end. -/
theorem enforces_of_compile {settings : Settings} {everyLocale : Value} {query : Query}
    {own : List Condition} {compiled : Request}
    (ran : compile settings everyLocale query own = .ok compiled) :
    Enforces settings.globalFilter.conditionList compiled := by
  obtain ⟨after, filtered, -, options, names, given⟩ := parts_of_compile ran
  obtain ⟨map, notices, gives, filters, kept⟩ := get?_of_filterOf filtered
  refine ⟨map, notices, gives, fun key value found => ?_⟩
  have filterKey : IsFilterKey key := filters (key, value) (OrderedMap.mem_of_get? found)
  exact get?_allParameters names given filterKey (kept key value found)

end Contentful

namespace Compiler

/-- What a compiler gives enforces global conditions, in the way of its target. -/
def Enforces (own everywhere : List Condition) : Compiler → Output → Prop
  | .groq _, .statement compiled => Groq.Enforces own everywhere compiled
  | .contentful _ _, .request compiled => Contentful.Enforces everywhere compiled
  | .qdrant configuration, .scroll compiled =>
    Qdrant.Enforces configuration.payloadPrefix everywhere compiled
  | _, _ => False

/--
The global conditions of a compiler cannot be escaped: whatever a query asks for and passes through,
and whatever is dropped on the way, what the query compiles to enforces them.
-/
theorem global_conditions_enforced {compiler : Compiler} {query : Query} {output : Output}
    {nodes : List Value} {everywhere : List Condition}
    (structured : compiler.settings.globalFilter = .conditions nodes everywhere)
    (built : compiler.compileQuery query = .ok output) :
    ∃ own, compiler.conditionsOf query = .ok own ∧ compiler.Enforces own everywhere output := by
  -- Each target has its own way to enforce what is told of it.
  obtain ⟨own, read, converted⟩ := conditions_of_compileQuery built
  refine ⟨own, read, ?_⟩
  have listed : compiler.settings.globalFilter.conditionList = everywhere := by
    rw [structured]
    rfl
  cases compiler with
  | groq settings =>
    obtain ⟨compiled, ran, rfl⟩ := exists_of_map converted
    exact Groq.enforces_of_compile structured ran
  | contentful settings everyLocale =>
    obtain ⟨compiled, ran, rfl⟩ := exists_of_map converted
    exact listed ▸ Contentful.enforces_of_compile ran
  | qdrant configuration =>
    obtain ⟨compiled, ran, rfl⟩ := exists_of_map converted
    exact listed ▸ Qdrant.enforces_of_compile ran

/-- A query for documents of another tenant, or any, that passes the key of the tenant through. -/
def intrudingQuery : Query :=
  { Query.everything with
    filter := [.leaf (.text "tenant") (.text "==") (.text "b"),
      .node .null .null .null .null
        (.list [.leaf (.text "tags") (.text "startsWith") (.text "x"),
          .node .null .null .null (.list []) .null .null]) .null]
    params := ⟨[(.text "fields.tenant", .text "b"), (.text "scroll_filter", .null)]⟩ }

/-- A query for another tenant is compiled, and the condition on the compiler's own is enforced. -/
def ResistsIntrusion (compiler : Compiler) : Prop :=
  ∃ output own, compiler.compileQuery intrudingQuery = .ok output ∧
    compiler.conditionsOf intrudingQuery = .ok own ∧
      compiler.Enforces own [.leaf (.text "tenant") (.known .equal) (.text "a")] output

/-- A query for another tenant is compiled for every target with the condition on its own. -/
theorem global_conditions_enforced_tenant :
    ResistsIntrusion (.groq Groq.tenantSettings) ∧
      ResistsIntrusion (.contentful Groq.tenantSettings (.bool false)) ∧
        ResistsIntrusion (.qdrant ⟨Groq.tenantSettings, .text "data", .text "_draft"⟩) := by
  -- The query is compiled once for each target, and the theorem tells the rest.
  have each (compiler : Compiler) (same : compiler.settings = Groq.tenantSettings)
      (built : ∃ output, compiler.compileQuery intrudingQuery = .ok output) :
      ResistsIntrusion compiler := by
    have structured : compiler.settings.globalFilter =
        .conditions [.leaf (.text "tenant") (.text "==") (.text "a")]
          [.leaf (.text "tenant") (.known .equal) (.text "a")] := by
      rw [same]
      rfl
    obtain ⟨output, built⟩ := built
    obtain ⟨own, read, enforced⟩ := global_conditions_enforced structured built
    exact ⟨output, own, built, read, enforced⟩
  exact ⟨each _ rfl ⟨_, rfl⟩, each _ rfl ⟨_, rfl⟩, each _ rfl ⟨_, rfl⟩⟩

end Compiler

end ContentQuery
