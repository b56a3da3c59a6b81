import ContentQuery.Proofs.ProjectionDepth

/-! Projections without the names that they exclude, and how they differ from those with them. -/

namespace ContentQuery

namespace Projection

/-- Whether what stands under an output name excludes it. -/
def isExclusion : Value → Bool
  | .bool false => true
  | _ => false

mutual

/-- A map of output names without those that it excludes, at every level. -/
def pare : Value → Value
  | .map entries => .map (pareEntries entries)
  | other => other
termination_by structural input => input

/-- Entries without those that exclude an output name. -/
def pareEntries : List (Value × Value) → List (Value × Value)
  | [] => []
  | (key, value) :: rest =>
    if isExclusion value then pareEntries rest else (key, pareField value) :: pareEntries rest
termination_by structural input => input

/-- What stands under an output name, without the names that are excluded below it. -/
def pareField : Value → Value
  | .map entries =>
    match firstOf functionKeys entries with
    -- The map of a function has arguments in it and no output names.
    | some _ => .map entries
    | none =>
      match firstOf expansionKeys entries with
      | some _ => .map (pareExpansion entries)
      | none => .map (pareEntries entries)
  | other => other
termination_by structural input => input

/-- The map of an expansion, of which only the projection has output names. -/
def pareExpansion : List (Value × Value) → List (Value × Value)
  | [] => []
  | (key, value) :: rest =>
    (key, if Node.keyText? key = some "projection" then pare value else value) ::
      pareExpansion rest
termination_by structural input => input

end

/-- Whether a projection has entries, each of which excludes its name. -/
def isHollow : Value → Bool
  | .map entries => !entries.isEmpty && entries.all (isExclusion ·.2)
  | _ => false

section Count

variable (accepts : String → Bool) (levels : Nat)

mutual

/--
The number of references that are expanded to nothing but exclusions, under names that are accepted
and within a number of levels, where some levels lie above.
-/
def hollows (above : Nat) : Value → Nat
  | .map entries => hollowsAmong above entries
  | _ => 0
termination_by structural input => input

/-- Their number among the entries of a map. -/
def hollowsAmong (above : Nat) : List (Value × Value) → Nat
  | [] => 0
  | (key, value) :: rest =>
    (if (outputName? key).any accepts then hollowsUnder above value else 0) +
      hollowsAmong above rest
termination_by structural input => input

/-- Their number in what stands under an output name. -/
def hollowsUnder (above : Nat) : Value → Nat
  | .map entries =>
    match firstOf functionKeys entries with
    | some _ => 0
    | none =>
      match firstOf expansionKeys entries with
      | some wanted =>
        if wanted.isTruthy && above < levels then
          if (Value.lookup? "projection" entries).any isHollow then 1
          else hollowsExpanded (above + 1) entries
        else 0
      | none => hollowsAmong above entries
  | _ => 0
termination_by structural input => input

/-- Their number in the projection of an expansion. -/
def hollowsExpanded (above : Nat) : List (Value × Value) → Nat
  | [] => 0
  | (key, value) :: rest =>
    if Node.keyText? key = some "projection" then hollows above value
    else hollowsExpanded above rest
termination_by structural input => input

end

mutual

/--
Two projections that differ in what is excluded below them, with the number of references of the
first that are expanded to nothing but exclusions.
-/
inductive Pares : Nat → Nat → Projection → Projection → Prop
  | same {above : Nat} (item : Projection) : Pares above 0 item item
  | nested {above count : Nat} (name : String) {fields fields' : List Projection}
    (inside : AllPare above count fields fields') :
    Pares above (if accepts name then count else 0) (.nested (.text name) fields)
      (.nested (.text name) fields')
  /-- A field of which everything named is excluded is included as a whole. -/
  | emptied {above count : Nat} (name : String) {fields : List Projection}
    (inside : AllPare above count fields []) :
    Pares above 0 (.nested (.text name) fields) (.included (.text name))
  | expanded {above count : Nat} (name : String) {fields fields' : List Projection}
    (inside : AllPare (above + 1) count fields fields') :
    Pares above (if accepts name && above < levels then count else 0)
      (.expanded (.text name) fields) (.expanded (.text name) fields')
  /-- A reference of which everything named is excluded is resolved as a whole. -/
  | hollow {above count : Nat} (name : String) {fields : List Projection}
    (inside : AllPare (above + 1) count fields []) :
    Pares above (if accepts name && above < levels then 1 else 0)
      (.expanded (.text name) fields) (.resolved (.text name))

/-- Two lists of projections that differ in what is excluded among them and below them. -/
inductive AllPare : Nat → Nat → List Projection → List Projection → Prop
  | nil {above : Nat} : AllPare above 0 [] []
  | cons {above count others : Nat} {item item' : Projection} {rest rest' : List Projection}
    (first : Pares above count item item') (later : AllPare above others rest rest') :
    AllPare above (count + others) (item :: rest) (item' :: rest')
  | excluded {above others : Nat} {rest rest' : List Projection} (name : String)
    (later : AllPare above others rest rest') :
    AllPare above others (.excluded (.text name) :: rest) rest'

end

end Count

variable {accepts : String → Bool} {levels : Nat}

/-- Counts of two lists in a row add up. -/
theorem AllPare.append {above count others : Nat} {items items' more more' : List Projection} :
    AllPare accepts levels above count items items' →
      AllPare accepts levels above others more more' →
        AllPare accepts levels above (count + others) (items ++ more) (items' ++ more')
  -- By the first derivation, which is walked to its end.
  | .nil, second => (Nat.zero_add others).symm ▸ second
  | .cons first later, second => by
    rw [Nat.add_assoc]
    exact .cons first (later.append second)
  | .excluded name later, second => .excluded name (later.append second)

/-- A projection by itself is one without exclusions below it. -/
theorem AllPare.single {above : Nat} (item : Projection) :
    AllPare accepts levels above 0 [item] [item] :=
  .cons (.same item) .nil

/-- Where everything is excluded, nothing is expanded. -/
theorem AllPare.count_eq_zero {above count : Nat} {items : List Projection} :
    AllPare accepts levels above count items [] → count = 0
  | .nil => rfl
  | .excluded _ later => later.count_eq_zero

/-- Projections that differ in what is excluded below them have one name. -/
theorem Pares.name_eq {above count : Nat} {item item' : Projection} :
    Pares accepts levels above count item item' → item.name = item'.name
  | .same _ | .nested _ _ | .emptied _ _ | .expanded _ _ | .hollow _ _ => rfl

/-- References are resolved among projections where they are without what is excluded. -/
theorem AllPare.any_isExpansion_eq {above count : Nat} {items items' : List Projection} :
    AllPare accepts levels above count items items' →
      items.any isExpansion = items'.any isExpansion
  -- An exclusion is no expansion, and what is kept stays of its kind.
  | .nil => rfl
  | .cons first later => by
    rw [List.any_cons, List.any_cons, later.any_isExpansion_eq]
    cases first <;> rfl
  | .excluded name later => later.any_isExpansion_eq

mutual

/-- What is excluded below a projection is no part of a chain of expansions. -/
theorem Pares.expansionDepth_eq {above count : Nat} {item item' : Projection} :
    Pares accepts levels above count item item' → item.expansionDepth = item'.expansionDepth
  -- A pared item has the chains of what is left inside it.
  | .same _ => rfl
  | .nested _ inside => inside.deepest_eq
  | .emptied _ inside => inside.deepest_eq
  | .expanded _ inside | .hollow _ inside => congrArg (1 + ·) inside.deepest_eq
termination_by structural pares => pares

/-- Neither is what is excluded among several projections. -/
theorem AllPare.deepest_eq {above count : Nat} {items items' : List Projection} :
    AllPare accepts levels above count items items' → deepest items = deepest items'
  -- An exclusion has no chain of its own, so that leaving it out changes no maximum.
  | .nil => rfl
  | .cons first later => by rw [deepest, deepest, first.expansionDepth_eq, later.deepest_eq]
  | .excluded _ later => by rw [deepest, expansionDepth, Nat.zero_max, later.deepest_eq]
termination_by structural pares => pares

end

mutual

/-- A projection is sound where it is without what is excluded below it. -/
theorem Pares.isSound_eq {above count : Nat} {item item' : Projection} :
    Pares accepts levels above count item item' → item.isSound = item'.isSound
  -- Whether an item is sound is asked of its fields only.
  | .same _ => rfl
  | .nested _ inside | .emptied _ inside | .expanded _ inside | .hollow _ inside =>
    inside.areSound_eq
termination_by structural pares => pares

/-- So are several projections. -/
theorem AllPare.areSound_eq {above count : Nat} {items items' : List Projection} :
    AllPare accepts levels above count items items' → areSound items = areSound items'
  -- An exclusion is sound in any case.
  | .nil => rfl
  | .cons first later => by rw [areSound, areSound, first.isSound_eq, later.areSound_eq]
  | .excluded _ later => later.areSound_eq
termination_by structural pares => pares

end

/-- The chains of expansions are measured alike with exclusions and without. -/
theorem AllPare.measure_eq {above count : Nat} {items items' : List Projection}
    (pares : AllPare accepts levels above count items items') : measure items = measure items' := by
  rw [measure, measure, pares.areSound_eq, pares.deepest_eq]

section Lookup

/-- Under any name but one, the map of an expansion keeps what it has. -/
theorem lookup?_pareExpansion {name : String} (other : name ≠ "projection")
    (entries : List (Value × Value)) :
    Value.lookup? name (pareExpansion entries) = Value.lookup? name entries := by
  -- Only the entry that is named projection changes, and another one is looked for.
  induction entries with
  | nil => rfl
  | cons entry rest ih =>
    rw [pareExpansion, Value.lookup?_cons, Value.lookup?_cons, ih]
    by_cases named : Node.keyText? entry.1 = some name
    · have unasked : Node.keyText? entry.1 ≠ some "projection" := fun asked =>
        other (Option.some.inj (named.symm.trans asked))
      rw [if_pos named, if_pos named, if_neg unasked]
    · rw [if_neg named, if_neg named]

/-- Under that name, it has the projection without what this excludes. -/
theorem lookup?_pareExpansion_projection (entries : List (Value × Value)) :
    Value.lookup? "projection" (pareExpansion entries) =
      (Value.lookup? "projection" entries).map pare := by
  -- The first entry of that name is found in both, with its value pared.
  induction entries with
  | nil => rfl
  | cons entry rest ih =>
    rw [pareExpansion, Value.lookup?_cons, Value.lookup?_cons, ih]
    by_cases asked : Node.keyText? entry.1 = some "projection"
    · rw [if_pos asked, if_pos asked, if_pos asked, Option.map_some]
    · rw [if_neg asked, if_neg asked]

/-- The function and the wish of an expansion are looked for under other names. -/
theorem firstOf_pareExpansion {names : List String} (others : "projection" ∉ names)
    (entries : List (Value × Value)) :
    firstOf names (pareExpansion entries) = firstOf names entries :=
  firstOf_congr fun _ member =>
    lookup?_pareExpansion (fun same => others (same ▸ member)) entries

/-- A name that stands in front of no value in some entries stands so in those that are left. -/
theorem lookup?_pareEntries_none {name : String} (entries : List (Value × Value))
    (absent : Value.lookup? name entries = none) :
    Value.lookup? name (pareEntries entries) = none := by
  -- Entries are only left out, so that what was absent stays absent.
  induction entries with
  | nil => rfl
  | cons entry rest ih =>
    rw [Value.lookup?_cons] at absent
    by_cases named : Node.keyText? entry.1 = some name
    · rw [if_pos named] at absent
      exact nomatch absent
    · rw [if_neg named] at absent
      rw [pareEntries]
      split
      · exact ih absent
      · rw [Value.lookup?_cons, if_neg named, ih absent]

/-- Without some names among its entries, a map has none of them without what it excludes. -/
theorem firstOf_pareEntries_none {names : List String} {entries : List (Value × Value)}
    (absent : firstOf names entries = none) : firstOf names (pareEntries entries) = none :=
  firstOf_none_of_imp (fun _ => lookup?_pareEntries_none entries) absent

end Lookup

section Truth

/-- What does not count as true counts as false without what it excludes. -/
theorem any_isTruthy_pare {looked : Option Value} (vacant : looked.any Value.isTruthy = false) :
    (looked.map pare).any Value.isTruthy = false := by
  -- What counts as false is empty or no map, and paring leaves it so.
  cases looked with
  | none => rfl
  | some value =>
    cases value with
    | map entries =>
      cases entries with
      | nil => rfl
      | cons entry rest => exact nomatch vacant
    | _ => exact vacant

/-- Nothing is left of entries each of which excludes its name. -/
theorem isEmpty_pareEntries (entries : List (Value × Value)) :
    (pareEntries entries).isEmpty = entries.all (isExclusion ·.2) := by
  -- An entry is left out exactly if its value excludes it.
  induction entries with
  | nil => rfl
  | cons entry rest ih =>
    rw [pareEntries, List.all_cons]
    cases isExclusion entry.2 with
    | true => exact ih
    | false => rfl

/-- A projection that is hollow counts as true, and no more without what it excludes. -/
theorem any_isHollow (looked : Option Value) :
    looked.any isHollow = (looked.any Value.isTruthy && !(looked.map pare).any Value.isTruthy) := by
  -- Only a map changes, and it is hollow where it had entries and has none any more.
  cases looked with
  | none => rfl
  | some value =>
    cases value with
    | map entries => simp [isHollow, pare, Value.isTruthy, isEmpty_pareEntries]
    | _ => exact (Bool.and_not_self _).symm

/-- Where there is no projection, nothing is expanded. -/
theorem hollows_of_isNull {value : Value} (absent : value.isNull = true) (above : Nat) :
    hollows accepts levels above value = 0 := by
  -- Null has nothing inside.
  cases value with
  | null => rfl
  | _ => exact nomatch absent

/-- A projection is there with what it excludes and without. -/
theorem isNull_pare (value : Value) : (pare value).isNull = value.isNull := by
  cases value <;> rfl

end Truth

end Projection

/-- A query whose projection excludes nothing, and that is otherwise as it was. -/
def Query.pared (query : Query) : Query :=
  { query with projection := Projection.pare query.projection }

end ContentQuery
