import ContentQuery.Proofs.Paring.Projection
import ContentQuery.Proofs.QuieterRuns

/-! A projection is read to the same fields without the names that it excludes, but for these. -/

namespace ContentQuery.Projection

open Compile (Eases)

variable {accepts : String → Bool} {levels : Nat}

section Reading

variable (limit : DepthLimit) (depth : Nat) (position : Position)

/-- What counts as false is read to nothing. -/
theorem read_of_not_truthy {value : Value} (vacant : value.isTruthy = false) :
    read limit depth position value = pure [] := by
  -- A map is vacant when it is empty; anything else that is vacant is passed over as it stands.
  cases value with
  | map entries =>
    cases entries with
    | nil => rfl
    | cons entry rest => exact nomatch vacant
  | _ =>
    unfold read
    rw [vacant]
    rfl

/-- An expansion whose projection does not count as true is read to nothing. -/
theorem readExpansion_of_not_truthy {entries : List (Value × Value)}
    (vacant : (Value.lookup? "projection" entries).any Value.isTruthy = false) :
    readExpansion limit depth position entries = pure [] := by
  -- By induction on the entries: the one that is read is the first named so, which is vacant here.
  induction entries with
  | nil => rfl
  | cons entry rest ih =>
    rw [readExpansion_cons]
    rw [Value.lookup?_cons] at vacant
    split
    · rename_i asked
      rw [if_pos asked] at vacant
      exact read_of_not_truthy _ _ _ vacant
    · rename_i unasked
      rw [if_neg unasked] at vacant
      exact ih vacant

/-- What is read in place of something that needs a check of its nesting needs none. -/
theorem eases_checked {α β : Type} {relation : α → β → Prop} {first : Compile α}
    {first' instead : Compile β} {vacant : Bool}
    (without : vacant = true → Eases relation first instead)
    (with_ : vacant = false → Eases relation first first') :
    Eases relation (do checkDepth limit depth position; first)
      (if vacant then instead else do checkDepth limit depth position; first') := by
  -- A vacant side skips the check of the depth, which may refuse but adds nothing.
  cases vacant with
  | true =>
    have unchecked : (checkDepth limit depth position).Ensures fun _ _ => True :=
      blind_checkDepth _ _ _
    exact .skip unchecked fun _ _ => without rfl
  | false => exact .after (blind_checkDepth _ _ _).steady fun _ _ => with_ rfl

/-- Something in the place of a map is read to nothing where it is read at all. -/
theorem eases_misplaced {above : Nat} (value : Value) :
    Eases (AllPare accepts levels above 0)
      (if !value.isTruthy then pure [] else do
        checkDepth limit depth position
        Compile.refuse .mistyped)
      (if !value.isTruthy then pure [] else do
        checkDepth limit depth position
        Compile.refuse .mistyped) := by
  -- What stands where a projection should is not pared, and a check in front of a refusal is all
  -- that can differ.
  cases value.isTruthy with
  | false => exact .pure .nil
  | true =>
    have unchecked : (checkDepth limit depth position).Ensures fun _ _ => True :=
      blind_checkDepth _ _ _
    exact .skip unchecked fun _ _ => .refuse

/-- A field that both readings give has nothing excluded below it. -/
theorem eases_flat {above count : Nat} (name : String) (item : Projection) (none_ : count = 0) :
    Eases (fun field field' => AllPare accepts levels above (if accepts name then count else 0)
        field.toList field'.toList)
      (pure (some item) : Compile (Option Projection)) (pure (some item)) := by
  rw [none_, ite_self]
  exact .pure (.single item)

/-- Neither has a field for which something has to be written. -/
theorem eases_written {above count : Nat} (name : String) (item : Projection) (writable : Bool)
    (none_ : count = 0) :
    Eases (fun field field' => AllPare accepts levels above (if accepts name then count else 0)
        field.toList field'.toList)
      (do Compile.requireWritten writable; return some item)
      (do Compile.requireWritten writable; return some item) := by
  -- The same item on both sides, below which nothing is hollow.
  have given : Compile.Ensures (do Compile.requireWritten writable; return some item)
      fun field _ => field = some item := .written (.pure rfl)
  rw [none_, ite_self]
  exact .refl given.steady fun _ same => same ▸ .single item

/-- A reference is expanded to what its projection is read to, or resolved as a whole. -/
theorem eases_expanded {above : Nat} (name : String) {entries : List (Value × Value)}
    (inside : Eases
      (AllPare accepts levels (above + 1) (hollowsExpanded accepts levels (above + 1) entries))
      (readExpansion limit depth position entries)
      (readExpansion limit depth position (pareExpansion entries))) :
    Eases (fun field field' => AllPare accepts levels above
        (if accepts name && above < levels then
          if (Value.lookup? "projection" entries).any isHollow then 1
          else hollowsExpanded accepts levels (above + 1) entries
        else 0) field.toList field'.toList)
      (if !(Value.lookup? "projection" entries).any Value.isTruthy then
        return some (.resolved (.text name))
      else return some (.expanded (.text name) (← readExpansion limit depth position entries)))
      (if !((Value.lookup? "projection" entries).map pare).any Value.isTruthy then
        return some (.resolved (.text name))
      else
        return some (.expanded (.text name)
          (← readExpansion limit depth position (pareExpansion entries)))) := by
  have looked := lookup?_pareExpansion_projection entries
  rw [any_isHollow]
  cases wanted : (Value.lookup? "projection" entries).any Value.isTruthy with
  | false =>
    -- Nothing is read of the projection, with or without exclusions.
    have unwanted := any_isTruthy_pare wanted
    rw [← looked] at unwanted ⊢
    rw [readExpansion_of_not_truthy _ _ _ wanted,
      readExpansion_of_not_truthy _ _ _ unwanted] at inside
    rw [unwanted, inside.of_pure.count_eq_zero]
    simp only [Bool.false_and, Bool.false_eq_true, if_false, ite_self]
    exact .pure (.single _)
  | true =>
    rw [← looked]
    cases left : (Value.lookup? "projection" (pareExpansion entries)).any Value.isTruthy with
    | false =>
      -- What the projection is read to is nothing but exclusions.
      rw [readExpansion_of_not_truthy _ _ _ left] at inside
      exact .absorb inside fun fields shorter => .pure (.cons (.hollow name shorter) .nil)
    | true =>
      exact inside.bind fun fields fields' shorter => .pure (.cons (.expanded name shorter) .nil)

/-- Where neither reading gives a field, nothing is excluded. -/
theorem eases_noted {above : Nat} {compile : Compile (Option Projection)}
    (noted : compile.Ensures fun field _ => field = none) :
    Eases (fun field field' => AllPare accepts levels above 0 field.toList field'.toList)
      compile compile :=
  .refl noted.steady fun _ same => same ▸ .nil

variable {limit depth position}

/-- What stands under a name that is excluded is read to an exclusion, or noted for its key. -/
theorem ensures_exclusion {key value : Value} (excludes : isExclusion value = true) :
    Compile.Ensures ((outputName? key).elim (invalidKey key) fun name =>
        readField limit depth position name value)
      fun field _ => field = none ∨ ∃ name : String, field = some (.excluded (.text name)) := by
  cases outputName? key with
  | none => exact (Compile.ensures_shown _ _ _ _ _).mono fun _ _ same => Or.inl same
  | some name =>
    cases value with
    | bool wanted =>
      cases wanted with
      | true => exact nomatch excludes
      | false => exact .pure (Or.inr ⟨name, rfl⟩)
    | _ => exact nomatch excludes

-- By induction on the value: an entry that is left out is read to an exclusion or to a notice, and
-- where nothing is left of a map, the fields of the other reading are exclusions one and all.
mutual

/-- A projection is read without what it excludes where it is read at all. -/
theorem eases_read (above depth : Nat) (position : Position) : (value : Value) →
    Eases (AllPare accepts levels above (hollows accepts levels above value))
      (read limit depth position value) (read limit depth position (pare value))
  -- Only a map is pared; it may lose all its entries, and an empty one is not checked any more.
  | .map entries => by
    have inside := eases_readEntries above depth position entries
    unfold pare read
    cases entries with
    | nil => exact .pure .nil
    | cons entry rest =>
      refine eases_checked _ _ _ (fun empty => ?_) fun _ => inside
      rw [List.isEmpty_iff.mp empty] at inside
      exact inside
  | .null | .bool _ | .int _ | .float _ | .text _ | .bytes _ | .uuid _ | .moment _ | .date _
  | .time _ | .list _ | .tuple _ | .set _ _ | .operator _ | .member _ | .foreign
  | .node _ _ _ _ _ _ | .sortKey _ | .projection _ => by
    simp only [pare, hollows, read]
    exact eases_misplaced limit depth position _
termination_by structural value => value

/-- Entries are read without those that exclude a name. -/
theorem eases_readEntries (above depth : Nat) (position : Position) :
    (entries : List (Value × Value)) →
    Eases (AllPare accepts levels above (hollowsAmong accepts levels above entries))
      (readEntries limit depth position entries)
      (readEntries limit depth position (pareEntries entries))
  -- By induction on the entries. An exclusion goes without being read, and every other entry keeps
  -- its key.
  | [] => .pure .nil
  | (key, value) :: rest => by
    have here (name : String) := eases_readField above depth position name value
    have later := eases_readEntries above depth position rest
    rw [readEntries_cons, pareEntries, hollowsAmong]
    cases excludes : isExclusion value with
    | true =>
      -- An exclusion is no map, so that no expansion is below it.
      have none_ : hollowsUnder accepts levels above value = 0 := by
        cases value with
        | map entries => exact nomatch excludes
        | _ => rfl
      rw [if_pos rfl, none_, ite_self, Nat.zero_add]
      refine .skip (ensures_exclusion excludes) fun field kind => ?_
      refine later.map fun fields fields' shorter => ?_
      rcases kind with rfl | ⟨name, rfl⟩
      · exact shorter
      · exact .excluded name shorter
    | false =>
      rw [if_neg Bool.false_ne_true, readEntries_cons]
      have first : Eases (fun field field' => AllPare accepts levels above
          (if (outputName? key).any accepts then hollowsUnder accepts levels above value else 0)
          field.toList field'.toList)
          ((outputName? key).elim (invalidKey key) fun name =>
            readField limit depth position name value)
          ((outputName? key).elim (invalidKey key) fun name =>
            readField limit depth position name (pareField value)) := by
        cases outputName? key with
        | none => exact eases_noted (Compile.ensures_shown _ _ _ _ _)
        | some name => exact here name
      exact first.bind fun _ _ shorter => later.bind fun _ _ others => .pure (shorter.append others)
termination_by structural entries => entries

/-- What stands under an output name is read without what is excluded below it. -/
theorem eases_readField (above depth : Nat) (position : Position) (name : String) :
    (value : Value) →
    Eases (fun field field' => AllPare accepts levels above
        (if accepts name then hollowsUnder accepts levels above value else 0)
        field.toList field'.toList)
      (readField limit depth position name value)
      (readField limit depth position name (pareField value))
  -- The cases are those in which the descriptor is read: a flag or a name, a function, an
  -- expansion, and a nested object.
  | .projection _ | .bool true | .bool false | .text _ => eases_flat name _ rfl
  | .map entries => by
    have entriesEase := eases_readEntries above (depth + 1) (position.down (.name name)) entries
    have expansionEases :=
      eases_readExpansion (above + 1) (depth + 1) (position.down (.name name)) entries
    cases function : firstOf functionKeys entries with
    | some called =>
      simp only [pareField, readField, function]
      -- Below a function nothing is pared.
      exact eases_written name _ _ (by simp [hollowsUnder, function])
    | none =>
      cases expansion : firstOf expansionKeys entries with
      | some wanted =>
        -- Paring keeps the keys by which the descriptor was recognised.
        have function' : firstOf functionKeys (pareExpansion entries) = none :=
          (firstOf_pareExpansion (by simp [functionKeys]) entries).trans function
        have expansion' : firstOf expansionKeys (pareExpansion entries) = some wanted :=
          (firstOf_pareExpansion (by simp [expansionKeys]) entries).trans expansion
        simp only [pareField, function, expansion]
        unfold readField
        simp only [function, function', expansion, expansion', lookup?_pareExpansion_projection]
        cases wants : wanted.isTruthy with
        | false => exact eases_flat name _ (by simp [hollowsUnder, function, expansion, wants])
        | true =>
          -- The count asks for a known name, a level that is left and a wish to expand, in this
          -- order.
          have counted : (if accepts name then hollowsUnder accepts levels above (.map entries)
              else 0) = if accepts name && above < levels then
                if (Value.lookup? "projection" entries).any isHollow then 1
                else hollowsExpanded accepts levels (above + 1) entries
              else 0 := by
            simp only [hollowsUnder, function, expansion, wants, Bool.true_and]
            cases accepts name <;> cases decide (above < levels) <;> rfl
          rw [counted]
          exact eases_expanded _ _ _ name expansionEases
      | none =>
        have function' := firstOf_pareEntries_none function
        have expansion' := firstOf_pareEntries_none expansion
        have counted : hollowsUnder accepts levels above (.map entries) =
            hollowsAmong accepts levels above entries := by
          simp only [hollowsUnder, function, expansion]
        simp only [pareField, function, expansion]
        unfold readField
        simp only [function, function', expansion, expansion', counted]
        cases entries with
        | nil =>
          rw [hollowsAmong, ite_self]
          exact .pure (.single _)
        | cons entry rest =>
          refine eases_checked _ _ _ (fun empty => ?_) fun _ => ?_
          · rw [List.isEmpty_iff.mp empty] at entriesEase
            -- All the fields were exclusions, so that there was nothing to count among them.
            refine .absorb entriesEase fun fields shorter => .pure ?_
            rw [shorter.count_eq_zero, ite_self]
            exact .cons (.emptied name shorter) .nil
          · refine entriesEase.bind fun fields fields' shorter => .pure ?_
            exact .cons (.nested name shorter) .nil
  | .null | .int _ | .float _ | .bytes _ | .uuid _ | .moment _ | .date _ | .time _ | .list _
  | .tuple _ | .set _ _ | .operator _ | .member _ | .foreign | .node _ _ _ _ _ _
  | .sortKey _ => by
    simp only [pareField, hollowsUnder, readField, ite_self]
    exact eases_noted (Compile.ensures_shown _ _ _ _ _)
termination_by structural value => value

/-- The projection of an expansion is read without what it excludes. -/
theorem eases_readExpansion (above depth : Nat) (position : Position) :
    (entries : List (Value × Value)) →
    Eases (AllPare accepts levels above (hollowsExpanded accepts levels above entries))
      (readExpansion limit depth position entries)
      (readExpansion limit depth position (pareExpansion entries))
  -- By induction on the entries: the first that holds a projection is read.
  | [] => .pure .nil
  | (key, value) :: rest => by
    have here := eases_read above depth position value
    have later := eases_readExpansion above depth position rest
    rw [pareExpansion, readExpansion_cons, readExpansion_cons, hollowsExpanded]
    split
    · exact here
    · exact later
termination_by structural entries => entries

end

/-- The projection of a query is read without what it excludes where it is read at all. -/
theorem eases_readTop (accepts : String → Bool) (levels : Nat) (limit : DepthLimit)
    (value : Value) :
    Eases (AllPare accepts levels 0 (hollows accepts levels 0 value)) (readTop limit value)
      (readTop limit (pare value)) :=
  eases_read 0 1 _ value

end Reading

end ContentQuery.Projection
