import ContentQuery.Proofs.Contentful.Enumeration
import ContentQuery.Proofs.Groq.Enumeration
import ContentQuery.Proofs.Qdrant.Enumeration

/-! Enumerating the sets in a filter anew: what of it shows in what a query compiles to. -/

namespace ContentQuery

/-- A query whose filter differs from that of another one in the enumeration of its sets only. -/
structure Query.Reenumerated (query query' : Query) : Prop where
  filters : Node.ItemsAlike enumerations query.filter query'.filter
  /-- The queries are the same beside their filters. -/
  beside : query' = { query with filter := query'.filter }

/-- Two filters of scrolls in which the order of sets shows in the order of their parts only. -/
structure Qdrant.FilterAlike (hidden : Prop) (filter filter' : Option Clause) : Prop where
  /-- Identifiers and clauses are the same, in whatever order. -/
  rearranged : Option.Rel Clause.Rearranged filter filter'
  /-- The same points are found. -/
  found : ∀ truth, Clause.IgnoresOrder truth →
    (FilterHolds truth filter ↔ FilterHolds truth filter')
  /-- Where no order of a set is read, none shows. -/
  same : hidden → filter = filter'

/-- Two outputs for one target with the same parameters and the same query, or filters alike. -/
inductive Output.Alike (hidden : Prop) : Output → Output → Prop
  | statement {compiled compiled' : Compiled Groq.Statement Value}
    (query : compiled.query = compiled'.query)
    (parameters : compiled.parameters = compiled'.parameters) :
    Alike hidden (.statement compiled) (.statement compiled')
  | request {compiled compiled' : Contentful.Request} (query : compiled.query = compiled'.query)
    (parameters : compiled.parameters = compiled'.parameters) :
    Alike hidden (.request compiled) (.request compiled')
  | scroll {compiled compiled' : Qdrant.Scroll}
    (query : Qdrant.FilterAlike hidden compiled.query compiled'.query)
    (parameters : compiled.parameters = compiled'.parameters) :
    Alike hidden (.scroll compiled) (.scroll compiled')

/-- Filters that are settled are alike. -/
theorem Qdrant.FilterSettled.alike {hidden : Prop} {filter filter' : Option Clause}
    (settled : FilterSettled hidden filter filter') : FilterAlike hidden filter filter' := by
  -- A filter that is settled is rearranged, and rearranged clauses say the same.
  cases settled with
  | none => exact ⟨.none, fun _ _ => Iff.rfl, fun _ => rfl⟩
  | some settled =>
    exact ⟨.some settled.1, fun truth ignores => settled.1.holds_iff ignores,
      fun safe => congrArg some (settled.2 safe)⟩

/--
Two queries that differ in how the sets in their filters are enumerated are both refused, or compile
to the same parameters and, as statements and requests, to the same query. The filters of scrolls
find the same points, and they are the same where no membership of the identifier and no containment
of every item is about a set: those two keep the order in which the set is enumerated. Only an
integer that is too long may refuse one of the two queries, for it is met before or behind an item
that has no form.
-/
theorem Compiler.set_order_hidden (compiler : Compiler) {query query' : Query}
    (anew : query.Reenumerated query') :
    AgreeUnless (· = .unwritable) (Output.Alike (∀ own, compiler.conditionsOf query = .ok own →
        Qdrant.anyAsksInOrder own = false))
      (compiler.compileQuery query) (compiler.compileQuery query') := by
  -- The conditions are read alike first; then each target has its own proof for what it makes of
  -- them.
  have conditions := compiler.agree_conditionsOf anew.filters
  rw [compileQuery_eq, compileQuery_eq]
  revert conditions
  generalize compiler.conditionsOf query = read
  generalize compiler.conditionsOf query' = read'
  intro conditions
  have beside := anew.beside
  cases conditions with
  | refused => exact .refused
  | gave alike =>
    rename_i own own'
    show AgreeUnless _ _ (compiler.compileConditions query own)
      (compiler.compileConditions query' own')
    cases compiler with
    | groq settings =>
      exact (Groq.agree_compile settings query query' beside alike).map fun _ _ same =>
        .statement same.1 same.2.1
    | contentful settings everyLocale =>
      exact (Contentful.agree_compile settings everyLocale query query' beside alike).map
        fun _ _ same => .request same.1 same.2.1
    | qdrant configuration =>
      exact (Qdrant.agree_compile configuration query query' beside alike
        fun safe => safe own rfl).map fun _ _ same => .scroll same.1.alike same.2.1

/-- A compiler for scrolls without options. -/
def scrolls : Compiler := .qdrant ⟨Settings.standard, .null, .text "_draft"⟩

/-- A query that compares a field with a set. -/
def Query.comparing (field symbol : String) (items : List Value) : Query :=
  { Query.everything with
    filter := [.leaf (.text "title") (.text "==") (.text "lean"),
      .leaf (.text field) (.text symbol) (.set false items)] }

/-- The set may be enumerated in any order. -/
theorem Query.reenumerated_comparing (field symbol : String) {items items' : List Value}
    (moved : items.Perm items') :
    (comparing field symbol items).Reenumerated (comparing field symbol items') := by
  -- Only the set itself moves, and everything beside it stays.
  have same : {items : List Value} → Value.AllReenumerated items items := by
    intro items
    induction items with
    | nil => exact .nil
    | cons item rest ih => exact .cons (.same item) ih
  exact ⟨.cons (.same _) (.cons (.node (.set moved same) (.same _) (.same _) (.same _)) .nil), rfl⟩

/-- Identifiers keep the order of their set; where no order is read, the filters are the same. -/
theorem Compiler.set_order_hidden_titled :
    (∃ compiled compiled',
      scrolls.compileQuery (.comparing "_id" "in" [.int 8, .int 0]) = .ok (.scroll compiled) ∧
      scrolls.compileQuery (.comparing "_id" "in" [.int 0, .int 8]) = .ok (.scroll compiled') ∧
      compiled.parameters = compiled'.parameters ∧
      Option.Rel Qdrant.Clause.Rearranged compiled.query compiled'.query) ∧
    ∃ compiled compiled',
      scrolls.compileQuery (.comparing "tags" "==" [.int 8, .int 0]) = .ok (.scroll compiled) ∧
      scrolls.compileQuery (.comparing "tags" "==" [.int 0, .int 8]) = .ok (.scroll compiled') ∧
      compiled.query = compiled'.query := by
  have moved : [Value.int 8, .int 0].Perm [.int 0, .int 8] := .swap _ _ _
  constructor
  · have agree := Compiler.set_order_hidden scrolls (Query.reenumerated_comparing "_id" "in" moved)
    cases agree.of_ok rfl rfl with
    | scroll query parameters => exact ⟨_, _, rfl, rfl, parameters, query.rearranged⟩
  · have agree := Compiler.set_order_hidden scrolls (Query.reenumerated_comparing "tags" "==" moved)
    cases agree.of_ok rfl rfl with
    | scroll query parameters =>
      -- The field is no identifier, so that an equality with a set reads no order.
      refine ⟨_, _, rfl, rfl, query.same fun own read => ?_⟩
      cases read
      rfl

/-- One set of identifiers, enumerated in two orders, makes two different filters. -/
theorem Compiler.set_order_shown_by_identifiers :
    (Query.comparing "_id" "in" [.int 8, .int 0]).Reenumerated
      (.comparing "_id" "in" [.int 0, .int 8]) ∧
    ∃ compiled compiled',
      scrolls.compileQuery (.comparing "_id" "in" [.int 8, .int 0]) = .ok (.scroll compiled) ∧
      scrolls.compileQuery (.comparing "_id" "in" [.int 0, .int 8]) = .ok (.scroll compiled') ∧
      compiled.query ≠ compiled'.query := by
  refine ⟨Query.reenumerated_comparing "_id" "in" (.swap _ _ _), _, _, rfl, rfl, fun same => ?_⟩
  cases same

end ContentQuery
