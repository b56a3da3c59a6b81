import ContentQuery.Proofs.Contentful.Options

/-! A depth that a query mentions is sent with a request, unless the limit on it is zero. -/

namespace ContentQuery

/-- A value is read as a request for natural numbers of levels only. -/
theorem Value.levelCount_nonneg {value : Value} {request : DepthRequest}
    (read : value.readResolution = .ok request) : 0 ≤ request.levelCount := by
  -- A flag counts for no level or one, and a number for itself.
  unfold readResolution at read
  split at read
  · cases read
    decide
  · rename_i wanted
    cases read
    cases wanted <;> decide
  · cases read
    exact Int.natCast_nonneg _
  · cases read

/-- A query that was checked asks for a natural number of levels. -/
theorem Query.Draft.levelCount_nonneg {draft : Draft} {query : Query}
    (checked : draft.check = .ok query) : 0 ≤ query.resolve.levelCount := by
  -- The request is the last of the parts that are read.
  obtain ⟨types, -, checked⟩ := ok_of_bind checked
  obtain ⟨filter, -, checked⟩ := ok_of_bind checked
  obtain ⟨entries, -, checked⟩ := ok_of_bind checked
  obtain ⟨order, -, checked⟩ := ok_of_bind checked
  obtain ⟨params, -, checked⟩ := ok_of_bind checked
  obtain ⟨limit, -, checked⟩ := ok_of_bind checked
  obtain ⟨offset, -, checked⟩ := ok_of_bind checked
  obtain ⟨resolve, read, checked⟩ := ok_of_bind checked
  cases checked
  exact Value.levelCount_nonneg read

namespace DepthRequest

/-- A request that is there and asks for no levels is one that declines them. -/
theorem declines_of_levelCount {request : DepthRequest} (given : request ≠ .unset)
    (none_ : request.levelCount = 0) : request.declines = true := by
  -- Only a flag that is not raised and a zero ask for no level.
  cases request with
  | unset => exact absurd rfl given
  | flag wanted =>
    cases wanted with
    | false => rfl
    | true => exact absurd none_ (by decide)
  | levels count =>
    have zero : count = 0 := none_
    subst zero
    rfl

end DepthRequest

namespace Contentful

/-- The levels of references that the service resolves, which are one where it is not told. -/
def servedLevels (parameters : OrderedMap Value Value) : Value :=
  (parameters.get? (.text "include")).getD (.int 1)

/-- A depth is sent where levels are granted, and otherwise where the query declines them. -/
theorem includeLevels_eq (query : Query) (depth : Nat) :
    includeLevels query depth =
      if 0 < depth ∨ query.resolve.declines = true then some depth else none := by
  -- A depth of zero is sent only where it was asked for.
  unfold includeLevels
  by_cases some_ : depth = 0
  · subst some_
    simp
  · have positive : 0 < depth := Nat.pos_of_ne_zero some_
    rw [if_pos some_, if_pos (Or.inl positive)]

/--
What is granted of a depth that a query mentions is sent where the limit grants any level, or where
the query declines all of them.
-/
theorem includeLevels_of_mentioned {query : Query} {expansions limit : Nat}
    (natural : 0 ≤ query.resolve.levelCount)
    (mentioned : query.resolve ≠ .unset ∨ 1 ≤ expansions) :
    includeLevels query (min (max query.resolve.levelCount.toNat expansions) limit) =
      if 0 < limit ∨ query.resolve.declines = true then
        some (min (max query.resolve.levelCount.toNat expansions) limit)
      else none := by
  rw [includeLevels_eq]
  refine if_congr ?_ rfl rfl
  refine ⟨fun sent => sent.imp_left fun granted => by omega, fun granted => ?_⟩
  by_cases declines : query.resolve.declines = true
  · exact Or.inr declines
  -- A query that declines nothing wants at least one level, and the limit leaves one.
  · have positive : 0 < limit := granted.resolve_right declines
    have wanted : 1 ≤ max query.resolve.levelCount.toNat expansions := by
      rcases mentioned with given | expands
      · have some_ : query.resolve.levelCount ≠ 0 :=
          mt (DepthRequest.declines_of_levelCount given) declines
        omega
      · exact Nat.le_trans expands (Nat.le_max_right _ _)
    exact Or.inl (by omega)

/--
A depth that a query mentions is sent, cut to the limit, unless the limit is zero and the query does
not decline: only then is nothing sent, and the service resolves more than the limit.
-/
theorem mentioned_depth_sent {settings : Settings} {everyLocale : Value} {draft : Query.Draft}
    {query : Query} {compiled : Request} {fields : List Projection}
    (checked : draft.check = .ok query)
    (built : (Compiler.contentful settings everyLocale).compileQuery query =
      .ok (.request compiled))
    (reads : Projection.ReadsTo settings.depthLimit query.projection fields)
    (unpassed : query.params.get? (.text "include") = none)
    (mentioned : query.resolve ≠ .unset ∨ 1 ≤ Projection.deepest fields) :
    compiled.parameters.get? (.text "include") =
        (if 0 < settings.maxResolveDepth ∨ query.resolve.declines = true then
          some (.int (min (max query.resolve.levelCount.toNat (Projection.deepest fields))
            settings.maxResolveDepth : Nat))
        else none) ∧
      ∃ levels : Nat, servedLevels compiled.parameters = .int levels ∧
        (levels ≤ settings.maxResolveDepth ↔
          0 < settings.maxResolveDepth ∨ query.resolve.declines = true) := by
  obtain ⟨own, -, converted⟩ := Compiler.conditions_of_compileQuery built
  obtain ⟨sent, held, through⟩ := options_of_compile (request_of_output converted)
  obtain ⟨fields', reads', asked, -⟩ := held.resolves
  obtain rfl := reads.unique reads'
  have same : compiled.parameters.get? (.text "include") =
      (if 0 < settings.maxResolveDepth ∨ query.resolve.declines = true then
        some (.int (min (max query.resolve.levelCount.toNat (Projection.deepest fields))
          settings.maxResolveDepth : Nat))
      else none) := by
    -- Nothing that is passed through has the name, so that it is found among what was compiled.
    rw [through, get?_passed _ _ (Value.isDiscrete_text "include"), unpassed, Option.map_none,
      ite_self, Option.or_none, asked,
      includeLevels_of_mentioned (Query.Draft.levelCount_nonneg checked) mentioned]
    split <;> rfl
  refine ⟨same, ?_⟩
  unfold servedLevels
  rw [same]
  -- What is sent lies within the limit, and what is not sent counts for one level above zero.
  by_cases granted : 0 < settings.maxResolveDepth ∨ query.resolve.declines = true
  · rw [if_pos granted]
    exact ⟨_, rfl, iff_of_true (Nat.min_le_right _ _) granted⟩
  · rw [if_neg granted]
    exact ⟨1, rfl, iff_of_false (fun within => granted (Or.inl within)) granted⟩

/-- A projection that expands two references, one inside the other. -/
def twoExpansions : Value :=
  .map [(.text "author", .map [(.text "expand", .bool true),
    (.text "projection", .map [(.text "team", .map [(.text "expand", .bool true)])])])]

/-- A query that asks for three levels and expands two. -/
def deepQuery : Query :=
  { Query.everything with projection := twoExpansions, resolve := .levels 3 }

/-- Of three levels that are asked for, two are sent where two are granted. -/
theorem mentioned_depth_sent_cut :
    ∃ compiled fields,
      Query.Draft.check { resolve := .int 3, projection := twoExpansions } = .ok deepQuery ∧
      (Compiler.contentful { Settings.standard with maxResolveDepth := 2 }
        (.bool false)).compileQuery deepQuery = .ok (.request compiled) ∧
      Projection.ReadsTo Settings.standard.depthLimit deepQuery.projection fields ∧
        deepQuery.params.get? (.text "include") = none ∧ deepQuery.resolve ≠ .unset ∧
          compiled.parameters.get? (.text "include") = some (.int 2) ∧
            ∃ levels : Nat, servedLevels compiled.parameters = .int levels ∧ levels ≤ 2 := by
  have checked : Query.Draft.check { resolve := .int 3, projection := twoExpansions } =
      .ok deepQuery := rfl
  have built : ∃ compiled, (Compiler.contentful { Settings.standard with maxResolveDepth := 2 }
      (.bool false)).compileQuery deepQuery = .ok (.request compiled) := ⟨_, rfl⟩
  obtain ⟨compiled, built⟩ := built
  have reads : Projection.ReadsTo Settings.standard.depthLimit deepQuery.projection
      [.expanded (.text "author") [.resolved (.text "team")]] := ⟨_, rfl⟩
  have asked : deepQuery.resolve ≠ .unset := nofun
  obtain ⟨sent, levels, served, within⟩ :=
    mentioned_depth_sent checked built reads rfl (Or.inl asked)
  exact ⟨compiled, _, checked, built, reads, rfl, asked, sent, levels, served,
    within.mpr (Or.inl (by decide))⟩

/-- Where no level is granted, a request for one is not sent, and the service resolves one. -/
theorem requested_depth_unsent :
    ∃ query compiled, Query.Draft.check { resolve := .bool true } = .ok query ∧
      (Compiler.contentful { Settings.standard with maxResolveDepth := 0 }
        (.bool false)).compileQuery query = .ok (.request compiled) ∧
      query.params.get? (.text "include") = none ∧
        compiled.parameters.get? (.text "include") ≠ some (.int (min (max 1 0) 0 : Nat)) ∧
          servedLevels compiled.parameters = .int 1 :=
  ⟨_, _, rfl, rfl, rfl, nofun, rfl⟩

end Contentful

end ContentQuery
