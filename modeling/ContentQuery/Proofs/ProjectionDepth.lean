import ContentQuery.Proofs.Notices
import ContentQuery.Proofs.ProjectionNames

/-! The limit on nesting holds for the maps of a projection, but not for items built before. -/

namespace ContentQuery.Projection

mutual

/-- The number of levels of a projection with the fields below it. -/
def height : Projection → Nat
  | .nested _ fields | .expanded _ fields => 1 + tallest fields
  | .included _ | .excluded _ | .alias _ _ | .computed _ _ _ | .resolved _ | .stray _ => 1
termination_by structural input => input

/-- The largest number of levels that one of several projections has. -/
def tallest : List Projection → Nat
  | [] => 0
  | item :: rest => max (height item) (tallest rest)
termination_by structural input => input

end

/-- The output name that a key is, where it is one. -/
def outputName? : Value → Option String
  | .text name => if name.isEmpty then none else some name
  | _ => none

/-- What stands under one output name of a projection, as far as its nesting goes. -/
inductive Outline where
  /-- Nothing that is nested. -/
  | flat
  /-- An item that was built before. -/
  | built (item : Projection)
  /-- Fields one level down. -/
  | above (fields : List Outline)
  /-- Something in the place of a map that is none. -/
  | misplaced
  /-- Something that would have to be written, and holds an integer with too many digits for it. -/
  | unwritable

/-- The outline of what is written, and has nothing below it. -/
def Outline.ofWritten (writable : Bool) : Outline :=
  if writable then .flat else .unwritable

mutual

/-- The outline of a projection, output name by output name. -/
def outline : Value → List Outline
  | .map entries => outlineEntries entries
  | other => if other.isTruthy then [.misplaced] else []
termination_by structural input => input

/-- The outline of the entries of a map; of keys that are no output names, a notice is written. -/
def outlineEntries : List (Value × Value) → List Outline
  | [] => []
  | (key, value) :: rest =>
    (if (outputName? key).isSome then outlineField value else .ofWritten key.canInspect) ::
      outlineEntries rest
termination_by structural input => input

/-- The outline of what stands under one output name. -/
def outlineField : Value → Outline
  | .projection item => .built item
  | .map entries =>
    match firstOf functionKeys entries with
    | some function => .ofWritten function.canDisplay
    | none =>
      match firstOf expansionKeys entries with
      | some wanted =>
        if wanted.isTruthy && (Value.lookup? "projection" entries).any Value.isTruthy then
          .above (outlineExpansion entries)
        else .flat
      | none => if entries.isEmpty then .flat else .above (outlineEntries entries)
  -- What has no known form is written in a notice.
  | other => .ofWritten other.canInspect
termination_by structural input => input

/-- The outline of the projection that the map of an expansion names. -/
def outlineExpansion : List (Value × Value) → List Outline
  | [] => []
  | (key, value) :: rest =>
    match key with
    | .text "projection" => outline value
    | _ => outlineExpansion rest
termination_by structural input => input

end

namespace Outline

mutual

/-- The number of levels under an output name, itself included, where items weigh what is given. -/
def levels (weigh : Projection → Nat) : Outline → Nat
  | .flat | .misplaced | .unwritable => 1
  | .built item => weigh item
  | .above fields => 1 + deepest weigh fields
termination_by structural input => input

/-- The largest number of levels under one of several output names. -/
def deepest (weigh : Projection → Nat) : List Outline → Nat
  | [] => 0
  | field :: rest => max (levels weigh field) (deepest weigh rest)
termination_by structural input => input

end

mutual

/-- The faults, those of nesting apart, that may come of what stands under an output name. -/
def faults : Outline → List Fault
  | .flat | .built _ => []
  | .above fields => allFaults fields
  | .misplaced => [.mistyped]
  | .unwritable => [.unwritable]
termination_by structural input => input

/-- The faults that may come of what stands under several output names. -/
def allFaults : List Outline → List Fault
  | [] => []
  | field :: rest => faults field ++ allFaults rest
termination_by structural input => input

end

mutual

/-- Whether no item was built before. -/
def isPlain : Outline → Bool
  | .flat | .misplaced | .unwritable => true
  | .above fields => arePlain fields
  | .built _ => false
termination_by structural input => input

/-- Whether that is so under each of several output names. -/
def arePlain : List Outline → Bool
  | [] => true
  | field :: rest => isPlain field && arePlain rest
termination_by structural input => input

end

/-- The levels that reading counts: an item that was built before is one of them. -/
def counted : List Outline → Nat :=
  deepest fun _ => 1

mutual

/-- Without items that were built before it does not matter what they weigh. -/
theorem levels_of_isPlain {weigh weigh' : Projection → Nat} :
    (field : Outline) → field.isPlain = true → levels weigh field = levels weigh' field
  | .flat, _ | .misplaced, _ | .unwritable, _ => rfl
  | .above fields, plain => congrArg (1 + ·) (deepest_of_arePlain fields plain)
termination_by structural field => field

/-- That is so under several output names. -/
theorem deepest_of_arePlain {weigh weigh' : Projection → Nat} :
    (fields : List Outline) → arePlain fields = true →
      deepest weigh fields = deepest weigh' fields
  -- By induction on the fields: only what was built before is weighed.
  | [], _ => rfl
  | field :: rest, plain => by
    obtain ⟨here, later⟩ := Bool.and_eq_true_iff.mp plain
    rw [deepest, deepest, levels_of_isPlain field here, deepest_of_arePlain rest later]
termination_by structural fields => fields

end

end Outline

/-- Where there is an output name, there is a level. -/
theorem one_le_counted {entries : List (Value × Value)} (filled : entries ≠ []) :
    1 ≤ Outline.counted (outlineEntries entries) := by
  cases entries with
  | nil => exact absurd rfl filled
  | cons entry rest =>
    -- Even what is left out stands on a level.
    have here (field : Outline) : 1 ≤ field.levels fun _ => 1 := by
      cases field <;> simp [Outline.levels]
    simp only [outlineEntries, Outline.counted, Outline.deepest]
    exact Nat.le_trans (here _) (Nat.le_max_left _ _)

/-- Entries are read one after the other, and a key that is no output name gives no field. -/
theorem readEntries_cons (limit : DepthLimit) (depth : Nat) (position : Position)
    (key value : Value) (rest : List (Value × Value)) :
    readEntries limit depth position ((key, value) :: rest) = (do
      let field ← (outputName? key).elim (invalidKey key) fun name =>
        readField limit depth position name value
      return field.toList ++ (← readEntries limit depth position rest)) := by
  cases key with
  | text name => by_cases empty : name.isEmpty = true <;> simp [readEntries, outputName?, empty]
  | _ => simp [readEntries, outputName?]

/-- The projection of an expansion is read under the first key that asks for it. -/
theorem readExpansion_cons (limit : DepthLimit) (depth : Nat) (position : Position)
    (key value : Value) (rest : List (Value × Value)) :
    readExpansion limit depth position ((key, value) :: rest) =
      if Node.keyText? key = some "projection" then read limit depth position value
      else readExpansion limit depth position rest := by
  -- The key is compared as a text, and one that is none is passed over.
  cases key with
  | text name =>
    by_cases same : name = "projection" <;> simp [readExpansion, Node.keyText?, same]
  | _ => simp [readExpansion, Node.keyText?]

/-- It is outlined under the same key. -/
theorem outlineExpansion_cons (key value : Value) (rest : List (Value × Value)) :
    outlineExpansion ((key, value) :: rest) =
      if Node.keyText? key = some "projection" then outline value else outlineExpansion rest := by
  -- The key is compared as a text, and one that is none is passed over.
  cases key with
  | text name =>
    by_cases same : name = "projection" <;> simp [outlineExpansion, Node.keyText?, same]
  | _ => simp [outlineExpansion, Node.keyText?]

/-- Every projection has a level of its own. -/
theorem one_le_height (item : Projection) : 1 ≤ item.height := by
  cases item <;> simp [height]

/-- Several projections are as tall as those before and those behind a place between them. -/
theorem tallest_append (first second : List Projection) :
    tallest (first ++ second) = max (tallest first) (tallest second) := by
  induction first with
  | nil => simp [tallest]
  | cons item rest ih => rw [List.cons_append, tallest, tallest, ih, Nat.max_assoc]

/--
What reading something that reaches down to a level leads to: a result that meets a condition where
the limit allows it and nothing fails, a refusal of the nesting where the limit does not allow it,
or one of the faults that may come of what is read.
-/
def Reads {α : Type} (limit reach : Nat) (faults : List Fault) (post : α → Prop)
    (compile : Compile α) : Prop :=
  ∀ context,
    (∃ result after, compile context = .ok (result, after) ∧ reach ≤ limit ∧ faults = [] ∧
      post result) ∨
    (∃ position, compile context = .error (.tooDeep .projection (.levels limit) position) ∧
      limit < reach) ∨
    (∃ fault ∈ faults, compile context = .error fault)

namespace Reads

variable {α β : Type} {limit reach : Nat} {faults : List Fault} {post : α → Prop}

/-- A result that is given at once lies within a limit that was not exceeded before. -/
theorem pure {result : α} (within : reach ≤ limit) (met : post result) :
    Reads limit reach [] post (pure result) :=
  fun context => Or.inl ⟨result, context, rfl, within, rfl, met⟩

/-- A value of the wrong kind is refused, however deep it lies. -/
theorem mistyped {reach : Nat} : Reads limit reach [.mistyped] post (Compile.refuse .mistyped) :=
  fun _ => Or.inr (Or.inr ⟨.mistyped, List.mem_singleton_self _, rfl⟩)

/-- Two readings in a row reach as deep as the deeper of them, and fail as either may. -/
theorem bind {reach' : Nat} {faults' : List Fault} {final : β → Prop} {compile : Compile α}
    {next : α → Compile β} (first : Reads limit reach faults post compile)
    (then_ : ∀ result, post result → Reads limit reach' faults' final (next result)) :
    Reads limit (max reach reach') (faults ++ faults') final (compile >>= next) := by
  intro context
  rw [Compile.bind_apply]
  rcases first context with ⟨result, after, gave, within, rfl, met⟩ |
      ⟨position, refused, beyond⟩ | ⟨fault, inside, refused⟩
  -- A failure of the first part is one of both; behind a result of it, the second decides.
  · rw [gave, List.nil_append]
    rcases then_ result met after with ⟨result', after', gave', within', sound', met'⟩ |
        ⟨position, refused, beyond⟩ | failed
    · exact Or.inl ⟨result', after', gave', Nat.max_le.mpr ⟨within, within'⟩, sound', met'⟩
    · exact Or.inr (Or.inl ⟨position, refused, by omega⟩)
    · exact Or.inr (Or.inr failed)
  · rw [refused]
    exact Or.inr (Or.inl ⟨position, rfl, by omega⟩)
  · rw [refused]
    exact Or.inr (Or.inr ⟨fault, List.mem_append_left _ inside, rfl⟩)

/-- What is made of a result reaches no deeper. -/
theorem map {final : β → Prop} {compile : Compile α}
    (reads : Reads limit reach faults post compile) (f : α → β)
    (met : ∀ result, post result → final (f result)) :
    Reads limit reach faults final (do return f (← compile)) := by
  have both : Reads limit (max reach 0) (faults ++ []) final (do return f (← compile)) :=
    reads.bind fun result held => .pure (Nat.zero_le _) (met result held)
  rwa [Nat.max_zero, List.append_nil] at both

/-- A check of the nesting lets what follows reach on from the level it has checked. -/
theorem checked {depth : Nat} {position : Position} {next : Unit → Compile α}
    (lies : depth ≤ reach)
    (then_ : depth ≤ limit → Reads limit reach faults post (next ())) :
    Reads limit reach faults post (checkDepth (.levels limit) depth position >>= next) := by
  intro context
  rw [Compile.bind_apply]
  -- A level that is checked and allowed is no reason to fail, and one that is not is beyond.
  by_cases within : depth ≤ limit
  · have passes : checkDepth (.levels limit) depth position context = .ok ((), context) := by
      have exceeded : ¬ (limit : Int) < depth := by omega
      simp [checkDepth, Compile.ofExcept, Nesting.checkDepth, DepthLimit.exceeded?, exceeded,
        Except.map]
    rw [passes]
    exact then_ within context
  · have refused : checkDepth (.levels limit) depth position context =
        .error (.tooDeep .projection (.levels limit) position) := by
      have exceeded : (limit : Int) < depth := by omega
      simp [checkDepth, Compile.ofExcept, Nesting.checkDepth, DepthLimit.exceeded?, exceeded,
        Except.map]
    rw [refused]
    exact Or.inr (Or.inl ⟨position, rfl, by omega⟩)

end Reads

/-- What the fields that an outline is read to have of it. -/
structure Matches (outlines : List Outline) (fields : List Projection) : Prop where
  /-- The taller of both is what the outline weighs. -/
  weight : max (tallest fields) (Outline.counted outlines) = Outline.deepest height outlines
  /-- Only items that were built before may have other names than texts. -/
  named : Outline.arePlain outlines = true → areNamed (fun _ => true) fields = true

namespace Matches

variable {field : Outline} {outlines rest : List Outline} {fields : List Projection}

/-- What stands under one output name matches in front of what stands under the others. -/
theorem cons {item : Option Projection} (matched : Matches [field] item.toList)
    (others : Matches rest fields) : Matches (field :: rest) (item.toList ++ fields) := by
  obtain ⟨weight, named⟩ := matched
  obtain ⟨weight', named'⟩ := others
  refine ⟨?_, fun plain => ?_⟩
  -- Both sides are the largest of what stands under the one name and under the others.
  · simp only [Outline.counted, Outline.deepest, tallest_append] at weight weight' ⊢
    omega
  · obtain ⟨here, later⟩ := Bool.and_eq_true_iff.mp plain
    rw [areNamed_append, named' later, Bool.and_true]
    exact named (Bool.and_eq_true_iff.mpr ⟨here, rfl⟩)

/-- An item with fields below it matches the fields one level down. -/
theorem beneath {item : Projection} (matched : Matches outlines fields)
    (raised : item.height = 1 + tallest fields)
    (names : areNamed (fun _ => true) fields = true → item.isNamed (fun _ => true) = true) :
    Matches [.above outlines] [item] := by
  obtain ⟨weight, named⟩ := matched
  refine ⟨?_, fun plain => ?_⟩
  -- The item and the name that it stands under are one level above the fields.
  · simp only [Outline.counted, Outline.deepest, Outline.levels, tallest, raised] at weight ⊢
    omega
  · have inside := named (Bool.and_eq_true_iff.mp plain).1
    exact Bool.and_eq_true_iff.mpr ⟨names inside, rfl⟩

end Matches

/-- What stands under one output name is joined to what stands under the others. -/
theorem Reads.cons {limit above : Nat} {field : Outline} {rest : List Outline}
    {compile : Compile (Option Projection)} {others : Compile (List Projection)}
    (first : Reads limit (above + Outline.counted [field]) field.faults
      (fun item => Matches [field] item.toList) compile)
    (later : Reads limit (above + Outline.counted rest) (Outline.allFaults rest) (Matches rest)
      others) :
    Reads limit (above + Outline.counted (field :: rest)) (Outline.allFaults (field :: rest))
      (Matches (field :: rest)) (do
        let item ← compile
        return item.toList ++ (← others)) := by
  -- Both are read from the same level, and the deeper of the two decides.
  have reach : above + Outline.counted (field :: rest) =
      max (above + Outline.counted [field]) (above + Outline.counted rest) := by
    simp only [Outline.counted, Outline.deepest]
    omega
  rw [reach]
  exact first.bind fun item matched => later.map _ fun fields matched' => matched.cons matched'

/-- Fields that are put under an output name lie one level down from it. -/
theorem Reads.beneath {limit above : Nat} {fields : List Outline}
    {compile : Compile (List Projection)} (build : List Projection → Projection)
    (raises : ∀ items, (build items).height = 1 + tallest items)
    (names : ∀ items, areNamed (fun _ => true) items = true →
      (build items).isNamed (fun _ => true) = true)
    (inner : Reads limit (above + 1 + Outline.counted fields) (Outline.allFaults fields)
      (Matches fields) compile) :
    Reads limit (above + Outline.counted [.above fields]) (Outline.above fields).faults
      (fun item => Matches [.above fields] item.toList) (do return some (build (← compile))) := by
  -- What is below counts one level more.
  have reach : above + Outline.counted [.above fields] = above + 1 + Outline.counted fields := by
    simp only [Outline.counted, Outline.deepest, Outline.levels]
    omega
  rw [reach]
  exact inner.map _ fun items matched => matched.beneath (raises items) (names items)

/-- A field without fields of its own lies on the level of its output name. -/
theorem matches_flat {item : Projection} (low : item.height = 1)
    (named : item.isNamed (fun _ => true) = true) : Matches [.flat] [item] := by
  refine ⟨?_, fun _ => Bool.and_eq_true_iff.mpr ⟨named, rfl⟩⟩
  simp [Outline.counted, Outline.deepest, Outline.levels, tallest, low]

/-- So does a field that is left out. -/
theorem matches_none : Matches [.flat] [] :=
  ⟨rfl, fun _ => rfl⟩

/-- What is written lies on the level of its output name, or fails for what cannot be written. -/
theorem reads_written {limit above : Nat} {writable : Bool} (item : Option Projection)
    {write : Unit → Compile (Option Projection)} (within : above + 1 ≤ limit)
    (writes : ∀ context, ∃ after, write () context = .ok (item, after))
    (matched : Matches [.flat] item.toList) :
    Reads limit (above + Outline.counted [.ofWritten writable]) (Outline.ofWritten writable).faults
      (fun item => Matches [.ofWritten writable] item.toList)
      (Compile.requireWritten writable >>= write) := by
  -- What cannot be written is refused; otherwise the item lies on its level.
  intro context
  cases writable with
  | true =>
    obtain ⟨after, gave⟩ := writes context
    exact Or.inl ⟨item, after, gave, within, rfl, matched⟩
  | false => exact Or.inr (Or.inr ⟨.unwritable, List.mem_singleton_self _, rfl⟩)

/-- Nothing is read to nothing. -/
theorem matches_nil : Matches [] [] :=
  ⟨rfl, fun _ => rfl⟩

/-- Something in the place of a map is passed over where it counts as false. -/
theorem reads_misplaced {limit above : Nat} (within : above ≤ limit) (position : Position)
    (truthy : Bool) :
    Reads limit (above + Outline.counted (if truthy then [.misplaced] else []))
      (Outline.allFaults (if truthy then [.misplaced] else []))
      (Matches (if truthy then [.misplaced] else []))
      (if !truthy then pure [] else do
        checkDepth (.levels limit) (above + 1) position
        Compile.refuse .mistyped) := by
  cases truthy with
  | false => exact .pure within matches_nil
  | true => exact .checked (Nat.le_refl _) fun _ => .mistyped

-- By induction on the value. A reading below `above` levels starts with the check of the next one,
-- and the entries of a map are only read where that check has passed.
mutual

/-- Reading a projection below some levels reaches as many levels further as its outline counts. -/
theorem reads_read {limit above : Nat} (within : above ≤ limit) (position : Position) :
    (value : Value) →
      Reads limit (above + Outline.counted (outline value)) (Outline.allFaults (outline value))
        (Matches (outline value)) (read (.levels limit) (above + 1) position value)
  -- Only a map has anything below it, and one that is not empty counts a level.
  | .map entries => by
    unfold read
    split
    · rename_i empty
      obtain rfl := List.isEmpty_iff.mp empty
      exact .pure within matches_nil
    · rename_i filled
      have lies : 1 ≤ Outline.counted (outlineEntries entries) :=
        one_le_counted (by simpa using filled)
      exact .checked (by simp only [outline]; omega)
        fun allowed => reads_readEntries allowed position entries
  | .null | .bool _ | .int _ | .float _ | .text _ | .bytes _ | .uuid _ | .moment _ | .date _
  | .time _ | .list _ | .tuple _ | .set _ _ | .operator _ | .member _ | .foreign
  | .node _ _ _ _ _ _ | .sortKey _ | .projection _ => by
    unfold read outline
    exact reads_misplaced within position _
termination_by structural value => value

/-- Reading the entries of a map reaches as deep as the deepest of them. -/
theorem reads_readEntries {limit above : Nat} (within : above + 1 ≤ limit) (position : Position) :
    (entries : List (Value × Value)) →
      Reads limit (above + Outline.counted (outlineEntries entries))
        (Outline.allFaults (outlineEntries entries)) (Matches (outlineEntries entries))
        (readEntries (.levels limit) (above + 1) position entries)
  | [] => .pure (Nat.le_of_succ_le within) matches_nil
  | (key, value) :: rest => by
    have fieldReads (name : String) := reads_readField within position name value
    rw [readEntries_cons, outlineEntries]
    refine .cons ?_ (reads_readEntries within position rest)
    -- A key that is no output name leaves a notice, and counts for a level all the same.
    cases outputName? key with
    | none => exact reads_written none within (fun _ => ⟨_, rfl⟩) matches_none
    | some name => exact fieldReads name
termination_by structural entries => entries

/-- Reading what stands under an output name reaches as deep as its outline. -/
theorem reads_readField {limit above : Nat} (within : above + 1 ≤ limit) (position : Position)
    (name : String) : (value : Value) →
      Reads limit (above + Outline.counted [outlineField value]) (outlineField value).faults
        (fun field => Matches [outlineField value] field.toList)
        (readField (.levels limit) (above + 1) position name value)
  | .projection item => by
    -- An item is taken over as it is: it counts for one level, but weighs its height.
    refine .pure within ⟨?_, nofun⟩
    have := one_le_height item
    simp only [outlineField, Outline.counted, Outline.deepest, Outline.levels, tallest,
      Option.toList_some]
    omega
  | .bool true | .bool false | .text _ => .pure within (matches_flat rfl rfl)
  | .map entries => by
    have entriesRead (allowed : above + 2 ≤ limit) :=
      reads_readEntries allowed (position.down (.name name)) entries
    have expansionReads := reads_readExpansion within (position.down (.name name)) entries
    unfold readField outlineField
    -- A function is looked for before an expansion, and both before fields.
    cases firstOf functionKeys entries with
    | some function => exact reads_written (some _) within (fun _ => ⟨_, rfl⟩) (matches_flat rfl rfl)
    | none =>
      cases firstOf expansionKeys entries with
      | some wanted =>
        -- An expansion has fields below it where it is not declined and names a projection.
        dsimp only
        cases wanted.isTruthy with
        | false => exact .pure within (matches_flat rfl rfl)
        | true =>
          cases (Value.lookup? "projection" entries).any Value.isTruthy with
          | false => exact .pure within (matches_flat rfl rfl)
          | true =>
            exact .beneath (.expanded (.text name)) (fun _ => rfl) (fun _ named => named)
              expansionReads
      | none =>
        dsimp only
        cases empty : entries.isEmpty with
        | true => exact .pure within (matches_flat rfl rfl)
        | false =>
          -- The check for the fields one level down passes where there is room for a first of them.
          have lies : 1 ≤ Outline.counted (outlineEntries entries) :=
            one_le_counted (by simpa using empty)
          refine .checked ?_ fun allowed => .beneath (.nested (.text name)) (fun _ => rfl)
            (fun _ named => named) (entriesRead allowed)
          simp only [Bool.false_eq_true, if_false, Outline.counted, Outline.deepest,
            Outline.levels] at lies ⊢
          omega
  | .null | .int _ | .float _ | .bytes _ | .uuid _ | .moment _ | .date _ | .time _ | .list _
  | .tuple _ | .set _ _ | .operator _ | .member _ | .foreign | .node _ _ _ _ _ _
  | .sortKey _ => reads_written none within (fun _ => ⟨_, rfl⟩) matches_none
termination_by structural value => value

/-- Reading the projection of an expansion reaches as deep as that projection. -/
theorem reads_readExpansion {limit above : Nat} (within : above ≤ limit) (position : Position) :
    (entries : List (Value × Value)) →
      Reads limit (above + Outline.counted (outlineExpansion entries))
        (Outline.allFaults (outlineExpansion entries)) (Matches (outlineExpansion entries))
        (readExpansion (.levels limit) (above + 1) position entries)
  -- By induction on the entries: the first that holds a projection is read, on the same level.
  | [] => .pure within matches_nil
  | (key, value) :: rest => by
    have valueReads := reads_read within position value
    have restReads := reads_readExpansion within position rest
    rw [readExpansion_cons, outlineExpansion_cons]
    split
    · exact valueReads
    · exact restReads
termination_by structural entries => entries

end

/-- The fields that a projection is read to match its outline. -/
theorem matches_of_readTop {limit : Nat} {value : Value} {fields : List Projection}
    {context after : Context}
    (read_ : readTop (.levels limit) value context = .ok (fields, after)) :
    Matches (outline value) fields := by
  unfold readTop at read_
  -- There is one outcome, and here it is known to be a result.
  rcases reads_read (Nat.zero_le limit) (.top "projection") value context with
      ⟨result, _, gave, -, -, matched⟩ | ⟨position, refused, -⟩ | ⟨fault, -, refused⟩
  · obtain ⟨rfl, -⟩ := Prod.mk.inj (Except.ok.inj (gave.symm.trans read_))
    exact matched
  · exact nomatch refused.symm.trans read_
  · exact nomatch refused.symm.trans read_

/--
A projection that is read lies within the limit as far as its maps go, and the fields it is read to
exceed the limit only by items that were built before. One that is refused exceeds the limit with
its maps and is refused for its nesting, or else for a value in the place of a map or for an integer
that cannot be written; where there is neither, it is refused exactly when its maps exceed the limit.
-/
theorem nesting_of_readTop (limit : Nat) (value : Value) (context : Context) :
    (∀ fields after, readTop (.levels limit) value context = .ok (fields, after) →
      Outline.counted (outline value) ≤ limit ∧
        (tallest fields ≤ limit ↔ Outline.deepest height (outline value) ≤ limit) ∧
          (Outline.arePlain (outline value) = true → tallest fields ≤ limit)) ∧
    (∀ fault, readTop (.levels limit) value context = .error fault →
      (limit < Outline.counted (outline value) ∧
        ∃ position, fault = .tooDeep .projection (.levels limit) position) ∨
      fault ∈ Outline.allFaults (outline value)) ∧
    (Outline.allFaults (outline value) = [] →
      (Outline.counted (outline value) ≤ limit →
        ∃ fields after, readTop (.levels limit) value context = .ok (fields, after)) ∧
      (limit < Outline.counted (outline value) → ∃ position,
        readTop (.levels limit) value context =
          .error (.tooDeep .projection (.levels limit) position))) := by
  have outcome := reads_read (Nat.zero_le limit) (.top "projection") value context
  rw [Nat.zero_add, Nat.zero_add] at outcome
  unfold readTop
  -- There is one outcome, and what is said of the other two is void.
  rcases outcome with ⟨result, _, gave, within, -, matched⟩ | ⟨position, refused, beyond⟩ |
      ⟨fault, inside, refused⟩
  · refine ⟨fun fields after read_ => ?_, fun fault refused => ?_,
      fun _ => ⟨fun _ => ⟨_, _, gave⟩, fun beyond => by omega⟩⟩
    · obtain ⟨rfl, -⟩ := Prod.mk.inj (Except.ok.inj (gave.symm.trans read_))
      -- The fields and the levels that count are together as tall as all that was given.
      have weighed : tallest result ≤ limit ↔ Outline.deepest height (outline value) ≤ limit := by
        have := matched.weight
        omega
      refine ⟨within, weighed, fun plain => weighed.mpr ?_⟩
      exact Nat.le_trans (Nat.le_of_eq (Outline.deepest_of_arePlain _ plain)) within
    · exact nomatch refused.symm.trans gave
  · refine ⟨fun fields after read_ => ?_, fun fault refused' => ?_,
      fun _ => ⟨fun within => by omega, fun _ => ⟨_, refused⟩⟩⟩
    · exact nomatch refused.symm.trans read_
    · exact Or.inl ⟨beyond, position, Except.error.inj (refused'.symm.trans refused)⟩
  · refine ⟨fun fields after read_ => ?_, fun fault' refused' => ?_, fun sound => ?_⟩
    · exact nomatch refused.symm.trans read_
    · obtain rfl := Except.error.inj (refused'.symm.trans refused)
      exact Or.inr inside
    · rw [sound] at inside
      exact absurd inside List.not_mem_nil

/-- A field below another is read within a limit of two levels, and refused within one of one. -/
theorem nesting_of_readTop_nested :
    Outline.allFaults (outline (.map [(.text "a", .map [(.text "b", .bool true)])])) = [] ∧
      (∃ fields after, readTop (.levels 2) (.map [(.text "a", .map [(.text "b", .bool true)])])
        .empty = .ok (fields, after)) ∧
      ∃ position, readTop (.levels 1) (.map [(.text "a", .map [(.text "b", .bool true)])])
        .empty = .error (.tooDeep .projection (.levels 1) position) :=
  ⟨rfl, ((nesting_of_readTop 2 _ _).2.2 rfl).1 (by decide),
    ((nesting_of_readTop 1 _ _).2.2 rfl).2 (by decide)⟩

/-- An item that was built before is read within a limit that it exceeds. -/
theorem readTop_built_exceeds :
    ∃ fields, readTop (.levels 1)
        (.map [(.text "a", .projection (.nested (.text "a") [.included (.text "b")]))]) .empty =
          .ok (fields, .empty) ∧ 1 < tallest fields :=
  ⟨[.nested (.text "a") [.included (.text "b")]], rfl, by decide⟩

end ContentQuery.Projection
