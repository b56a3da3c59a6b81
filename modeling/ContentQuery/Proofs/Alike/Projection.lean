import ContentQuery.Proofs.Alike.Filter
import ContentQuery.Proofs.Notices
import ContentQuery.Proofs.ProjectionNames

/-! Projections that differ in the arguments of computed fields only, as they are given and read. -/

namespace ContentQuery.Projection

open Compile (Agree)

variable (likeness : Likeness)

mutual

/-- Two projections with the same fields, apart from arguments that are alike. -/
inductive Alike : Projection → Projection → Prop
  | included (name : Value) : Alike (.included name) (.included name)
  | excluded (name : Value) : Alike (.excluded name) (.excluded name)
  | nested {name : Value} {fields fields' : List Projection} (inside : AllAlike fields fields') :
    Alike (.nested name fields) (.nested name fields')
  | alias (name path : Value) : Alike (.alias name path) (.alias name path)
  | computed {name function : Value} {arguments arguments' : List Value}
    (given : likeness.arguments arguments arguments') :
    Alike (.computed name function arguments) (.computed name function arguments')
  | resolved (name : Value) : Alike (.resolved name) (.resolved name)
  | expanded {name : Value} {fields fields' : List Projection} (inside : AllAlike fields fields') :
    Alike (.expanded name fields) (.expanded name fields')
  | stray (value : Value) : Alike (.stray value) (.stray value)

/-- Two lists of projections that are alike one by one. -/
inductive AllAlike : List Projection → List Projection → Prop
  | nil : AllAlike [] []
  | cons {item item' : Projection} {rest rest' : List Projection} (first : Alike item item')
    (others : AllAlike rest rest') : AllAlike (item :: rest) (item' :: rest')

end

variable {likeness}

mutual

/-- A projection is like itself. -/
theorem Alike.refl : (item : Projection) → Alike likeness item item
  -- The literals stand in the computed items alone; the others are rebuilt as they are.
  | .included name => .included name
  | .excluded name => .excluded name
  | .nested _ fields => .nested (AllAlike.refl fields)
  | .alias name path => .alias name path
  | .computed _ _ arguments => .computed (likeness.arguments_refl arguments)
  | .resolved name => .resolved name
  | .expanded _ fields => .expanded (AllAlike.refl fields)
  | .stray value => .stray value
termination_by structural item => item

/-- Projections are like themselves. -/
theorem AllAlike.refl : (items : List Projection) → AllAlike likeness items items
  | [] => .nil
  | item :: rest => .cons (Alike.refl item) (AllAlike.refl rest)
termination_by structural items => items

end

variable (likeness)

mutual

/-- Two maps of output names, as they are given, that differ in arguments only. -/
inductive FieldsAlike : Value → Value → Prop
  | same (value : Value) : FieldsAlike value value
  | map {entries entries' : List (Value × Value)} (inside : EntriesAlike entries entries') :
    FieldsAlike (.map entries) (.map entries')

/-- Two maps with the same output names, under which things are alike. -/
inductive EntriesAlike : List (Value × Value) → List (Value × Value) → Prop
  | nil : EntriesAlike [] []
  | cons {key value value' : Value} {rest rest' : List (Value × Value)}
    (first : FieldAlike value value') (others : EntriesAlike rest rest') :
    EntriesAlike ((key, value) :: rest) ((key, value') :: rest')

/-- What two maps give under one output name. -/
inductive FieldAlike : Value → Value → Prop
  | same (value : Value) : FieldAlike value value
  | item {item item' : Projection} (inside : Alike likeness item item') :
    FieldAlike (.projection item) (.projection item')
  | computed {entries entries' : List (Value × Value)} {function : Value}
    (called : firstOf functionKeys entries = some function)
    (called' : firstOf functionKeys entries' = some function)
    (given : likeness.arguments (argumentsOf entries) (argumentsOf entries')) :
    FieldAlike (.map entries) (.map entries')
  | expanded {entries entries' : List (Value × Value)} {wanted : Value}
    (plain : firstOf functionKeys entries = none)
    (asked : firstOf expansionKeys entries = some wanted)
    (inside : ExpansionAlike entries entries') : FieldAlike (.map entries) (.map entries')
  | nested {entries entries' : List (Value × Value)}
    (plain : firstOf functionKeys entries = none)
    (unasked : firstOf expansionKeys entries = none)
    (inside : EntriesAlike entries entries') : FieldAlike (.map entries) (.map entries')

/-- Two maps that ask for an expansion, whose projections are alike. -/
inductive ExpansionAlike : List (Value × Value) → List (Value × Value) → Prop
  | nil : ExpansionAlike [] []
  | same {entry : Value × Value} {rest rest' : List (Value × Value)}
    (others : ExpansionAlike rest rest') : ExpansionAlike (entry :: rest) (entry :: rest')
  | fields {value value' : Value} {rest rest' : List (Value × Value)}
    (inside : FieldsAlike value value') (others : ExpansionAlike rest rest') :
    ExpansionAlike ((.text "projection", value) :: rest) ((.text "projection", value') :: rest')

end

variable {likeness}

/-- Projections that are alike have one name. -/
theorem Alike.name_eq {item item' : Projection} : Alike likeness item item' → item.name = item'.name
  | .included _ | .excluded _ | .nested _ | .alias _ _ | .computed _ | .resolved _ | .expanded _
  | .stray _ => rfl

/-- Projections that are alike both resolve a reference, or neither does. -/
theorem Alike.isExpansion_eq {item item' : Projection} :
    Alike likeness item item' → item.isExpansion = item'.isExpansion
  | .included _ | .excluded _ | .nested _ | .alias _ _ | .computed _ | .resolved _ | .expanded _
  | .stray _ => rfl

/-- References are resolved among projections where they are among others that are like them. -/
theorem AllAlike.any_isExpansion_eq {items items' : List Projection} :
    AllAlike likeness items items' → items.any isExpansion = items'.any isExpansion
  | .nil => rfl
  | .cons first others => by
    rw [List.any_cons, List.any_cons, first.isExpansion_eq, others.any_isExpansion_eq]

/-- Two lists whose parts are alike are alike. -/
theorem AllAlike.append {items items' more more' : List Projection} :
    AllAlike likeness items items' → AllAlike likeness more more' →
      AllAlike likeness (items ++ more) (items' ++ more')
  | .nil, others => others
  | .cons first rest, others => .cons first (rest.append others)

/-- A map without entries is like itself only. -/
theorem EntriesAlike.isEmpty_eq {entries entries' : List (Value × Value)} :
    EntriesAlike likeness entries entries' → entries.isEmpty = entries'.isEmpty
  | .nil => rfl
  | .cons _ _ => rfl

/-- What is like nothing is nothing. -/
theorem FieldsAlike.isNull_eq {value value' : Value} :
    FieldsAlike likeness value value' → value.isNull = value'.isNull
  | .same _ | .map _ => rfl

section Lookup

/-- Maps that are alike have entries under the same names. -/
theorem EntriesAlike.lookup?_none {name : String} : {entries entries' : List (Value × Value)} →
    EntriesAlike likeness entries entries' → Value.lookup? name entries = none →
      Value.lookup? name entries' = none
  -- The keys are the same in both, and a key is looked up by its text only.
  | _, _, .nil, absent => absent
  | (key, _) :: _, _ :: _, .cons _ others, absent => by
    rw [Value.lookup?_cons] at absent ⊢
    by_cases named : Node.keyText? key = some name
    · rw [if_pos named] at absent
      cases absent
    · rw [if_neg named] at absent ⊢
      exact others.lookup?_none absent

/-- Maps that ask for the same expansion have the same entries under all names but one. -/
theorem ExpansionAlike.lookup?_eq {name : String} (other : name ≠ "projection") :
    {entries entries' : List (Value × Value)} → ExpansionAlike likeness entries entries' →
      Value.lookup? name entries = Value.lookup? name entries'
  -- Only the entry that is named projection may differ, and another one is looked for.
  | _, _, .nil => rfl
  | _ :: _, _, .same others => by
    rw [Value.lookup?_cons, Value.lookup?_cons, others.lookup?_eq other]
  | _, _, .fields _ others => by
    have unnamed : Node.keyText? (.text "projection") ≠ some name := fun named =>
      other (Option.some.inj named).symm
    rw [Value.lookup?_cons, Value.lookup?_cons, if_neg unnamed, if_neg unnamed,
      others.lookup?_eq other]

/-- The projection of an expansion counts as true for both maps or for neither. -/
theorem ExpansionAlike.truthy_eq : {entries entries' : List (Value × Value)} →
    ExpansionAlike likeness entries entries' →
      (Value.lookup? "projection" entries).any Value.isTruthy =
        (Value.lookup? "projection" entries').any Value.isTruthy
  -- The first entry of the name decides; fields that are alike are empty in both or in neither.
  | _, _, .nil => rfl
  | (key, _) :: _, _, .same others => by
    rw [Value.lookup?_cons, Value.lookup?_cons]
    by_cases named : Node.keyText? key = some "projection"
    · rw [if_pos named, if_pos named]
    · rw [if_neg named, if_neg named, others.truthy_eq]
  | _, _, .fields inside _ => by
    have named : Node.keyText? (.text "projection") = some "projection" := rfl
    rw [Value.lookup?_cons, Value.lookup?_cons, if_pos named, if_pos named]
    cases inside with
    | same => rfl
    | map inside => exact congrArg not inside.isEmpty_eq

variable {entries entries' : List (Value × Value)}

/-- Where a map has none of some names, neither has one that is like it. -/
theorem EntriesAlike.firstOf_none (inside : EntriesAlike likeness entries entries')
    {names : List String} (absent : firstOf names entries = none) :
    firstOf names entries' = none :=
  firstOf_none_of_imp (fun _ => inside.lookup?_none) absent

/-- Maps that ask for the same expansion have the same function and the same wish. -/
theorem ExpansionAlike.firstOf_eq (inside : ExpansionAlike likeness entries entries')
    {names : List String} (others : "projection" ∉ names) :
    firstOf names entries = firstOf names entries' :=
  firstOf_congr fun _ member => inside.lookup?_eq fun same => others (same ▸ member)

end Lookup

variable (limit : DepthLimit)

mutual

/-- Maps of output names that are alike are read as projections that are alike. -/
theorem agree_read : {value value' : Value} → FieldsAlike likeness value value' → (depth : Nat) →
    (position : Position) →
      Agree (AllAlike likeness) (read limit depth position value) (read limit depth position value')
  -- The fields are read on the same levels, so that the depth is checked alike.
  | _, _, .same value, depth, position =>
    .refl AllAlike.refl (blind_read limit depth position value)
  | _, _, .map inside, depth, position => by
    have fields := agree_readEntries inside depth position
    unfold read
    rw [inside.isEmpty_eq]
    split
    · exact .pure .nil
    · exact .bind (.refl (fun _ => rfl) (blind_checkDepth _ _ _)) fun _ _ _ => fields
termination_by structural _ _ inside => inside

/-- Entries that are alike are read as projections that are alike. -/
theorem agree_readEntries : {entries entries' : List (Value × Value)} →
    EntriesAlike likeness entries entries' → (depth : Nat) → (position : Position) →
      Agree (AllAlike likeness) (readEntries limit depth position entries)
        (readEntries limit depth position entries')
  | _, _, .nil, _, _ => .pure .nil
  | (key, _) :: rest, (_, _) :: rest', .cons first others, depth, position => by
    have later := agree_readEntries others depth position
    -- Whatever the first entry gives is followed by what the others give.
    have joined (field field' : Option Projection)
        (here : AllAlike likeness field.toList field'.toList) : Agree (AllAlike likeness)
          (do return field.toList ++ (← readEntries limit depth position rest))
          (do return field'.toList ++ (← readEntries limit depth position rest')) :=
      .bind later fun _ _ others => .pure (here.append others)
    have named (name : String) := agree_readField first depth position name
    have invalid : Agree Eq (invalidKey key) (invalidKey key) :=
      .refl (fun _ => rfl) (blind_invalidKey key)
    unfold readEntries
    dsimp only
    split
    · split
      · refine .bind invalid ?_
        rintro field _ rfl
        exact joined field field (AllAlike.refl _)
      · exact .bind (named _) joined
    · refine .bind invalid ?_
      rintro field _ rfl
      exact joined field field (AllAlike.refl _)
termination_by structural _ _ inside => inside

/-- What is alike under a name is read as projections that are alike. -/
theorem agree_readField : {value value' : Value} → FieldAlike likeness value value' →
    (depth : Nat) → (position : Position) → (name : String) →
      Agree (fun field field' => AllAlike likeness field.toList field'.toList)
        (readField limit depth position name value) (readField limit depth position name value')
  | _, _, .same value, depth, position, name =>
    .refl (fun field => AllAlike.refl field.toList)
      (blind_readField limit depth position name value)
  | _, _, .item inside, _, _, _ => .pure (.cons inside .nil)
  | _, _, .computed called called' given, depth, position, name => by
    have written (writable : Bool) : Agree Eq (Compile.requireWritten writable)
        (Compile.requireWritten writable) := .refl (fun _ => rfl) .requireWritten
    unfold readField
    rw [called, called']
    exact .bind (written _) fun _ _ _ => .pure (.cons (.computed given) .nil)
  | _, _, .expanded plain asked inside, depth, position, name => by
    have fields := agree_readExpansion inside (depth + 1) (position.down (.name name))
    -- The other map has no function either, and asks for the same.
    have plain' := (inside.firstOf_eq (by simp [functionKeys])).symm.trans plain
    have asked' := (inside.firstOf_eq (by simp [expansionKeys])).symm.trans asked
    unfold readField
    rw [plain, plain', inside.truthy_eq]
    dsimp only
    rw [asked, asked']
    dsimp only
    split
    · exact .pure (.cons (.included _) .nil)
    · split
      · exact .pure (.cons (.resolved _) .nil)
      · exact .bind fields fun _ _ fields => .pure (.cons (.expanded fields) .nil)
  | _, _, .nested plain unasked inside, depth, position, name => by
    have fields := agree_readEntries inside (depth + 1) (position.down (.name name))
    -- A nested object has neither a function nor an expansion on either side.
    have plain' := inside.firstOf_none plain
    have unasked' := inside.firstOf_none unasked
    unfold readField
    rw [plain, plain']
    dsimp only
    rw [unasked, unasked']
    dsimp only
    rw [inside.isEmpty_eq]
    split
    · exact .pure (.cons (.included _) .nil)
    · exact .bind (.refl (fun _ => rfl) (blind_checkDepth _ _ _)) fun _ _ _ =>
        .bind fields fun _ _ fields => .pure (.cons (.nested fields) .nil)
termination_by structural _ _ inside => inside

/-- Expansions that are alike are read as projections that are alike. -/
theorem agree_readExpansion : {entries entries' : List (Value × Value)} →
    ExpansionAlike likeness entries entries' → (depth : Nat) → (position : Position) →
      Agree (AllAlike likeness) (readExpansion limit depth position entries)
        (readExpansion limit depth position entries')
  -- The first entry of the name is read, and those before it are passed over in both.
  | _, _, .nil, _, _ => .pure .nil
  | (key, value) :: _, _, .same others, depth, position => by
    have later := agree_readExpansion others depth position
    unfold readExpansion
    split
    · exact .refl AllAlike.refl (blind_read limit depth position value)
    · exact later
  | _, _, .fields inside _, depth, position => agree_read inside depth position
termination_by structural _ _ inside => inside

end

end ContentQuery.Projection
