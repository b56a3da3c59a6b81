import ContentQuery.Proofs.Alike.Filter
import ContentQuery.Proofs.FilterReading

/-! A map and the query that its entries make are compiled alike. -/

namespace ContentQuery

namespace Node

variable {limit : DepthLimit}

/-- The node that an item of a filter is read as, in the form of a map or as a node. -/
def ofEntry (limit : DepthLimit) (entry : Value × Nat) : Except Fault Value :=
  ofDictionary limit 1 ((Position.top "filter").down (.item entry.2)) entry.1

/-- An item that is read as a node is the same one when only maps are read. -/
theorem ofItem_of_ofEntry {entry : Value × Nat} {node : Value}
    (read : ofEntry limit entry = .ok node) : ofItem limit entry = .ok node := by
  -- A raw filter takes what a typed one takes, and nodes besides.
  obtain ⟨item, index⟩ := entry
  cases item with
  | map entries => exact read
  | node field relation value all any negated =>
    obtain ⟨_, -, read⟩ := ok_of_bind read
    exact read
  | _ =>
    obtain ⟨_, -, refused⟩ := ok_of_bind read
    exact nomatch refused

/-- An item that gives a condition is read as the same node whether or not it is a map. -/
theorem ofEntry_of_ofItem {entry : Value × Nat} {node : Value} {condition : Condition}
    (given : ofItem limit entry = .ok node)
    (read : Condition.read limit 1 ((Position.top "filter").down (.item entry.2)) node =
      .ok condition) : ofEntry limit entry = .ok node := by
  obtain ⟨item, index⟩ := entry
  cases item with
  | map entries => exact given
  | node field relation value all any negated =>
    cases given
    -- The depth of a node is checked in both ways, and nothing else is before it is taken.
    obtain ⟨passed, within, -⟩ := ok_of_bind read
    unfold ofEntry ofDictionary
    rw [within]
    rfl
  | _ =>
    cases given
    obtain ⟨_, -, refused⟩ := ok_of_bind read
    exact nomatch refused

/-- Items in a row that give conditions are read as the same nodes whether or not they are maps. -/
theorem ofEntries_of_ofItems {items nodes : List Value} {conditions : List Condition} {start : Nat}
    (given : (items.zipIdx start).mapM (ofItem limit) = .ok nodes)
    (read : Condition.readItems limit 1 (.top "filter") .item start nodes = .ok conditions) :
    (items.zipIdx start).mapM (ofEntry limit) = .ok nodes := by
  -- By induction on the items: each was read into a node and its condition into the list, so that
  -- each entry can be read by itself.
  induction items generalizing start nodes conditions with
  | nil => exact given
  | cons item rest ih =>
    rw [List.zipIdx_cons, List.mapM_cons] at given
    obtain ⟨node, first, given⟩ := ok_of_bind given
    obtain ⟨others, later, given⟩ := ok_of_bind given
    cases given
    obtain ⟨condition, readFirst, read⟩ := ok_of_bind read
    obtain ⟨_, readLater, -⟩ := ok_of_bind read
    rw [List.zipIdx_cons, List.mapM_cons, ofEntry_of_ofItem first readFirst, ih later readLater]
    rfl

/-- Nodes stay as they are where maps are read. -/
theorem ofItems_nodes {nodes : List Value} {start : Nat}
    (each : ∀ given ∈ nodes, ∃ node : Node, given = node.toValue) :
    (nodes.zipIdx start).mapM (ofItem limit) = .ok nodes := by
  -- By induction on the nodes, each of which is passed as it stands.
  induction nodes generalizing start with
  | nil => rfl
  | cons given rest ih =>
    obtain ⟨⟨node, rfl⟩, later⟩ := List.forall_mem_cons.mp each
    rw [List.zipIdx_cons, List.mapM_cons, ih later]
    rfl

end Node

/-- The elements of a list are its items. -/
theorem Value.elementsOrNone_list (items : List Value) :
    (Value.list items).elementsOrNone = .ok items := by
  cases items <;> rfl

namespace Query

variable {limit : DepthLimit}

/-- Items that are all read as nodes are nodes afterwards, and are read as the same ones again. -/
theorem readRawFilter_of_readFilter {items nodes : List Value}
    (read : readFilter limit items = .ok nodes) :
    readRawFilter limit items = .ok nodes ∧ readRawFilter limit nodes = .ok nodes := by
  -- What a typed filter was read into are nodes, and those are read into themselves.
  constructor
  · exact mapM_of_imp (fun entry _ node => Node.ofItem_of_ofEntry) read
  · refine Node.ofItems_nodes fun given among => ?_
    obtain ⟨entry, -, made⟩ := (mem_of_mapM read).2 given among
    exact Node.exists_node_of_ofDictionary made

/-- Items whose conditions can be read are all read as nodes. -/
theorem readFilter_of_readRawFilter {items nodes : List Value} {conditions : List Condition}
    (raw : readRawFilter limit items = .ok nodes)
    (read : Condition.readAll limit "filter" nodes = .ok conditions) :
    readFilter limit items = .ok nodes :=
  Node.ofEntries_of_ofItems raw read

/-- A draft is well-formed when its filter can be walked over and the rest of it is well-formed. -/
theorem Draft.check_ok {draft : Draft} {query : Query} :
    draft.check = .ok query ↔ draft.filter.elementsOrNone = .ok query.filter ∧
      Draft.check { draft with filter := .null } = .ok { query with filter := [] } := by
  constructor
  · intro checked
    obtain ⟨types, typed, checked⟩ := ok_of_bind checked
    obtain ⟨filter, walked, checked⟩ := ok_of_bind checked
    obtain ⟨entries, listed, checked⟩ := ok_of_bind checked
    obtain ⟨order, sorted, checked⟩ := ok_of_bind checked
    obtain ⟨params, mapped, checked⟩ := ok_of_bind checked
    obtain ⟨limit, limited, checked⟩ := ok_of_bind checked
    obtain ⟨offset, moved, checked⟩ := ok_of_bind checked
    obtain ⟨resolve, resolved, checked⟩ := ok_of_bind checked
    cases checked
    exact ⟨walked, bind_ok typed <| bind_ok rfl <| bind_ok listed <| bind_ok sorted <|
      bind_ok mapped <| bind_ok limited <| bind_ok moved <| bind_ok resolved rfl⟩
  · rintro ⟨walked, checked⟩
    obtain ⟨types, typed, checked⟩ := ok_of_bind checked
    obtain ⟨filter, -, checked⟩ := ok_of_bind checked
    obtain ⟨entries, listed, checked⟩ := ok_of_bind checked
    obtain ⟨order, sorted, checked⟩ := ok_of_bind checked
    obtain ⟨params, mapped, checked⟩ := ok_of_bind checked
    obtain ⟨limit, limited, checked⟩ := ok_of_bind checked
    obtain ⟨offset, moved, checked⟩ := ok_of_bind checked
    obtain ⟨resolve, resolved, checked⟩ := ok_of_bind checked
    -- What is not checked agrees part by part.
    obtain ⟨_, _, _, _, _, _, _, _, _, _, _, _⟩ := query
    cases checked
    exact bind_ok typed <| bind_ok walked <| bind_ok listed <| bind_ok sorted <|
      bind_ok mapped <| bind_ok limited <| bind_ok moved <| bind_ok resolved rfl

/-- A map has no entry under a name that none of its keys is. -/
theorem lookup?_of_keysWithin {names : List String} {entries : List (Value × Value)}
    (within : keysWithin names entries = true) {name : String} (foreign : name ∉ names) :
    Value.lookup? name entries = none := by
  -- By induction on the entries: every key is one of the names.
  induction entries with
  | nil => rfl
  | cons entry rest ih =>
    obtain ⟨key, value⟩ := entry
    obtain ⟨known, later⟩ := Bool.and_eq_true_iff.mp within
    rw [Value.lookup?_cons, if_neg, ih later]
    rintro named
    rw [Node.eq_text_of_keyText? named] at known
    exact foreign (List.contains_iff_mem.mp known)

/-- Where names are spelled in one way, the second spelling of a name finds nothing. -/
theorem pick_eq {entries : List (Value × Value)} (within : keysWithin partNames entries = true) :
    pick entries = fun name => (Value.lookup? name entries).getD .null := by
  -- The second spelling of a name is either the same or none of the names.
  funext name
  have second : camelName name = name ∨ camelName name ∉ partNames := by
    unfold camelName
    split
    iterate 4 exact .inr (by decide)
    exact .inl rfl
  unfold pick
  rcases second with same | foreign
  · rw [same, Option.or_self]
  · rw [lookup?_of_keysWithin within foreign, Option.or_none]

end Query

namespace Compiler

/-- The filter of a query matters for its conditions, and for nothing besides. -/
theorem compileConditions_filter (compiler : Compiler) (query : Query) (filter : List Value)
    (conditions : List Condition) :
    compiler.compileConditions { query with filter } conditions =
      compiler.compileConditions query conditions := by
  cases compiler <;> rfl

/-- A query is compiled to an output when its filter is read and its conditions give the output. -/
theorem compileQuery_ok {compiler : Compiler} {query : Query} {output : Output} :
    compiler.compileQuery query = .ok output ↔ ∃ nodes conditions,
      Query.readRawFilter compiler.settings.depthLimit query.filter = .ok nodes ∧
        Condition.readAll compiler.settings.depthLimit "filter" nodes = .ok conditions ∧
          compiler.compileConditions query conditions = .ok output := by
  -- The three steps are taken in turn, and each has to succeed.
  constructor
  · intro built
    obtain ⟨nodes, raw, built⟩ := ok_of_bind built
    obtain ⟨conditions, read, built⟩ := ok_of_bind built
    exact ⟨nodes, conditions, raw, read, built⟩
  · rintro ⟨nodes, conditions, raw, read, built⟩
    exact bind_ok raw (bind_ok read built)

/--
A map whose keys are names of parts is compiled as the query that its entries make.

The filter of the map may hold maps and nodes, and maps may hold nodes at any depth.
-/
theorem entry_forms_agree (compiler : Compiler) {entries : List (Value × Value)}
    (within : Query.keysWithin Query.partNames entries = true) (output : Output) :
    compiler.compile (.map entries) = .ok output ↔
      Query.ofParts entries >>= compiler.compileQuery = .ok output := by
  constructor
  · intro built
    obtain ⟨query, read, built⟩ := ok_of_bind built
    obtain ⟨items, walked, read⟩ := ok_of_bind read
    obtain ⟨nodes, asNodes, checked⟩ := ok_of_bind read
    rw [Query.pick_eq within] at walked checked
    obtain ⟨filter, rest⟩ := Query.Draft.check_ok.mp checked
    rw [Value.elementsOrNone_list] at filter
    -- The nodes are read again at no cost, and as the same nodes as the items themselves.
    obtain ⟨rawItems, rawNodes⟩ := Query.readRawFilter_of_readFilter asNodes
    obtain ⟨nodes', conditions, raw, conditionsRead, compiled⟩ := compileQuery_ok.mp built
    rw [← Except.ok.inj filter] at raw
    cases rawNodes.symm.trans raw
    have parts : Query.ofParts entries = .ok { query with filter := items } := by
      unfold Query.ofParts
      rw [if_pos within]
      exact Query.Draft.check_ok.mpr ⟨walked, rest⟩
    refine bind_ok parts (compileQuery_ok.mpr ⟨nodes, conditions, rawItems, conditionsRead, ?_⟩)
    rw [compileConditions_filter]
    exact compiled
  · intro built
    obtain ⟨query, parts, built⟩ := ok_of_bind built
    unfold Query.ofParts at parts
    rw [if_pos within] at parts
    obtain ⟨walked, rest⟩ := Query.Draft.check_ok.mp parts
    obtain ⟨nodes, conditions, raw, conditionsRead, compiled⟩ := compileQuery_ok.mp built
    -- Items whose conditions are read would have been read as nodes at the start.
    have asNodes := Query.readFilter_of_readRawFilter raw conditionsRead
    obtain ⟨-, rawNodes⟩ := Query.readRawFilter_of_readFilter asNodes
    have read : Query.ofDictionary compiler.settings.depthLimit entries =
        .ok { query with filter := nodes } := by
      unfold Query.ofDictionary
      rw [Query.pick_eq within]
      exact bind_ok walked (bind_ok asNodes
        (Query.Draft.check_ok.mpr ⟨Value.elementsOrNone_list nodes, rest⟩))
    refine bind_ok read (compileQuery_ok.mpr ⟨nodes, conditions, rawNodes, conditionsRead, ?_⟩)
    rw [compileConditions_filter]
    exact compiled

/-- The entries of a query with a filter of a map, in which a node lies, and a node. -/
def mixedEntries : List (Value × Value) :=
  [(.text "filter", .list
    [.map [(.text "or", .list
      [.leaf (.text "title") (.text "==") (.text "a"),
        .map [(.text "field", .text "views"), (.text "operator", .text "=="),
          (.text "value", .int 3)]])],
      .leaf (.text "slug") (.text "defined") .null]), (.text "limit", .int 5)]

/-- A filter of maps and nodes is compiled on each target, in either form of the query. -/
theorem entry_forms_agree_mixed :
    Query.keysWithin Query.partNames mixedEntries = true ∧
      ∀ compiler ∈ [Compiler.groq Settings.standard, .contentful Settings.standard .null,
          .qdrant ⟨Settings.standard, .text "data", .text "_draft"⟩],
        ∃ output, compiler.compile (.map mixedEntries) = .ok output ∧
          Query.ofParts mixedEntries >>= compiler.compileQuery = .ok output := by
  -- The theorem carries one output over to the other entry; each target is run once.
  have within : Query.keysWithin Query.partNames mixedEntries = true := by decide
  have each (compiler : Compiler)
      (built : ∃ output, compiler.compile (.map mixedEntries) = .ok output) :
      ∃ output, compiler.compile (.map mixedEntries) = .ok output ∧
        Query.ofParts mixedEntries >>= compiler.compileQuery = .ok output := by
    obtain ⟨output, built⟩ := built
    exact ⟨output, built, (entry_forms_agree compiler within output).mp built⟩
  refine ⟨within, ?_⟩
  simp only [List.forall_mem_cons]
  exact ⟨each _ ⟨_, rfl⟩, each _ ⟨_, rfl⟩, each _ ⟨_, rfl⟩, nofun⟩

end Compiler

end ContentQuery
