import ContentQuery.Format.Bound
import ContentQuery.Format.Json
import ContentQuery.Format.Match
import ContentQuery.Format.Parameter
import ContentQuery.Format.Point
import ContentQuery.Proofs.Compilation
import ContentQuery.Proofs.ScalarInspection

/-! Sets that are enumerated in another order: the forms of literals in which that does not show. -/

namespace ContentQuery

section Results

variable {ε α β : Type} {result result' : Except ε α}

/-- Results that give one value, or none, are that value twice, or two failures. -/
theorem ok_or_error_of_toOption (same : result.toOption = result'.toOption) :
    (∃ given, result = .ok given ∧ result' = .ok given) ∨
      ∃ fault fault', result = .error fault ∧ result' = .error fault' := by
  -- Forgetting the fault leaves what was given.
  cases result with
  | error fault =>
    cases result' with
    | error fault' => exact Or.inr ⟨fault, fault', rfl, rfl⟩
    | ok given' => cases same
  | ok given =>
    cases result' with
    | error fault' => cases same
    | ok given' =>
      cases same
      exact Or.inl ⟨given, rfl, rfl⟩

/-- What goes on from one result, if there is any, leads to one result, if to any. -/
theorem toOption_bind {next next' : α → Except ε β} (same : result.toOption = result'.toOption)
    (later : ∀ given, (next given).toOption = (next' given).toOption) :
    (result >>= next).toOption = (result' >>= next').toOption := by
  rcases ok_or_error_of_toOption same with ⟨given, rfl, rfl⟩ | ⟨fault, fault', rfl, rfl⟩
  · exact later given
  · rfl

/-- Items are converted together where each of them is. -/
theorem toOption_mapM (convert : α → Except ε β) (items : List α) :
    (items.mapM convert).toOption = items.mapM fun item => (convert item).toOption := by
  -- By induction on the items: the first fault ends both.
  induction items with
  | nil => rfl
  | cons item rest ih =>
    rw [List.mapM_cons, List.mapM_cons, ← ih]
    cases convert item with
    | error fault => rfl
    | ok given => cases rest.mapM convert <;> rfl

/-- Items of which one has no result have none together. -/
theorem mapM_eq_none {read : α → Option β} {items : List α} {item : α} (among : item ∈ items)
    (fails : read item = none) : items.mapM read = none := by
  -- By induction on the items; one that cannot be read spoils the list, whatever comes before it.
  induction items with
  | nil => cases among
  | cons first rest ih =>
    rw [List.mapM_cons]
    rcases List.mem_cons.mp among with rfl | later
    · rw [fails]
      rfl
    · rw [ih later]
      cases read first <;> rfl

/-- Lists of one length are both empty, or neither is. -/
theorem isEmpty_eq_of_length {items : List α} {items' : List β}
    (length : items.length = items'.length) : items.isEmpty = items'.isEmpty := by
  rw [Bool.eq_iff_iff, List.isEmpty_iff_length_eq_zero, List.isEmpty_iff_length_eq_zero, length]

/-- What relates every value to itself relates an option to itself. -/
theorem rel_refl {relation : α → α → Prop} (reflexive : ∀ given, relation given given)
    (given : Option α) : Option.Rel relation given given := by
  cases given with
  | none => exact .none
  | some given => exact .some (reflexive given)

end Results

/-- Values that are told apart are sorted in one way, whatever order they come in. -/
theorem Value.sorted_eq_of_perm {items items' : List Value} (perm : items.Perm items')
    (told : ∀ item ∈ items, ∀ other ∈ items, item.inspect = other.inspect → item = other) :
    sorted items = sorted items' := by
  have shuffled (items : List Value) : (sorted items).Perm items := List.mergeSort_perm items _
  have ascending (items : List Value) :
      (sorted items).Pairwise fun left right => left.inspect ≤ right.inspect := by
    let below (left right : Value) : Bool := decide (left.inspect ≤ right.inspect)
    have transitive (left middle right : Value) (first : below left middle = true)
        (second : below middle right = true) : below left right = true :=
      decide_eq_true (String.le_trans (of_decide_eq_true first) (of_decide_eq_true second))
    have total (left right : Value) : (below left right || below right left) = true := by
      rcases String.le_total left.inspect right.inspect with before | behind
      · exact Bool.or_eq_true_iff.mpr (Or.inl (decide_eq_true before))
      · exact Bool.or_eq_true_iff.mpr (Or.inr (decide_eq_true behind))
    exact (List.pairwise_mergeSort transitive total items).imp of_decide_eq_true
  -- Two ascending orders of the same values can differ in values that are shown alike only.
  refine List.Perm.eq_of_pairwise (fun left right here there first second => ?_) (ascending items)
    (ascending items') ((shuffled items).trans (perm.trans (shuffled items').symm))
  exact told left ((shuffled items).mem_iff.mp here) right
    (perm.mem_iff.mpr ((shuffled items').mem_iff.mp there)) (String.le_antisymm first second)

namespace Value

mutual

/-- A value whose sets are enumerated in any order, at whatever depth they lie. -/
inductive Reenumerated : Value → Value → Prop
  | same (value : Value) : Reenumerated value value
  | list {items items' : List Value} (inside : AllReenumerated items items') :
    Reenumerated (.list items) (.list items')
  | tuple {items items' : List Value} (inside : AllReenumerated items items') :
    Reenumerated (.tuple items) (.tuple items')
  | set {frozen : Bool} {items between items' : List Value} (moved : items.Perm between)
    (inside : AllReenumerated between items') :
    Reenumerated (.set frozen items) (.set frozen items')
  | map {entries entries' : List (Value × Value)} (inside : EntriesReenumerated entries entries') :
    Reenumerated (.map entries) (.map entries')
  | member {value value' : Value} (inside : Reenumerated value value') :
    Reenumerated (.member value) (.member value')
  /-- Nodes are no literals, whatever they hold. -/
  | node {field field' relation relation' value value' all all' any any' negated negated' : Value} :
    Reenumerated (.node field relation value all any negated)
      (.node field' relation' value' all' any' negated')
  /-- Neither are projections. -/
  | projection {item item' : Projection} : Reenumerated (.projection item) (.projection item')

/-- Values whose sets are enumerated in any order, one by one. -/
inductive AllReenumerated : List Value → List Value → Prop
  | nil : AllReenumerated [] []
  | cons {item item' : Value} {rest rest' : List Value} (first : Reenumerated item item')
    (others : AllReenumerated rest rest') : AllReenumerated (item :: rest) (item' :: rest')

/-- Entries of maps whose sets are enumerated in any order, those in keys as well. -/
inductive EntriesReenumerated : List (Value × Value) → List (Value × Value) → Prop
  | nil : EntriesReenumerated [] []
  | cons {key key' value value' : Value} {rest rest' : List (Value × Value)}
    (name : Reenumerated key key') (first : Reenumerated value value')
    (others : EntriesReenumerated rest rest') :
    EntriesReenumerated ((key, value) :: rest) ((key', value') :: rest')

end

/-- Whether a value may hold a set: none of these values is a scalar. -/
def isCompound : Value → Bool
  | .list _ | .tuple _ | .set _ _ | .map _ | .node .. | .projection _ => true
  | .member value => isCompound value
  | _ => false
termination_by structural input => input

/-- A value that can be sent as a scalar holds no set. -/
theorem isScalar_of_compound {value : Value} (compound : value.isCompound = true) :
    value.isScalar = false := by
  -- A member is compound by what it stands for, and then it is no scalar either.
  cases value with
  | member inner =>
    cases inner with
    | list | tuple | set | map | member | node | projection => rfl
    | _ => cases compound
  | list | tuple | set | map | node | projection => rfl
  | _ => cases compound

/-- A value that holds no set stays as it is. -/
theorem Reenumerated.eq_or_compound {value value' : Value} :
    Reenumerated value value' →
      value = value' ∨ (value.isCompound = true ∧ value'.isCompound = true)
  | .same _ => Or.inl rfl
  | .list _ | .tuple _ | .set _ _ | .map _ | .node | .projection => Or.inr ⟨rfl, rfl⟩
  | .member inside => inside.eq_or_compound.imp (congrArg Value.member) id

/-- Items that are enumerated anew are as many. -/
theorem AllReenumerated.length_eq {items items' : List Value} :
    AllReenumerated items items' → items.length = items'.length
  | .nil => rfl
  | .cons _ others => congrArg (· + 1) others.length_eq

/-- Each item has one that it is enumerated anew as. -/
theorem AllReenumerated.exists_of_mem {items items' : List Value} {item : Value} :
    AllReenumerated items items' → item ∈ items → ∃ item' ∈ items', Reenumerated item item'
  -- By induction on the two lists, whose items stand in the same places.
  | .nil, among => absurd among List.not_mem_nil
  | .cons first others, among => by
    rcases List.mem_cons.mp among with rfl | later
    · exact ⟨_, List.mem_cons_self, first⟩
    · obtain ⟨item', among', inside⟩ := others.exists_of_mem later
      exact ⟨item', List.mem_cons_of_mem _ among', inside⟩

/-- Items that hold no set stay as they are. -/
theorem AllReenumerated.eq_of_simple {items items' : List Value} :
    AllReenumerated items items' → (∀ item ∈ items, item.isCompound = false) → items = items'
  -- By induction on the two lists: an item that is not compound was not enumerated anew.
  | .nil, _ => rfl
  | .cons first others, simple => by
    obtain ⟨here, later⟩ := List.forall_mem_cons.mp simple
    rcases first.eq_or_compound with rfl | ⟨compound, -⟩
    · rw [others.eq_of_simple later]
    · exact absurd (here.symm.trans compound) Bool.false_ne_true

/-- Items have forms where none of them lies too deep and each of them has one. -/
theorem jsonItems_cons_iff {depth : Nat} {item : Value} {rest forms : List Value} :
    jsonItems depth (item :: rest) = .ok forms ↔ ¬ maxJsonDepth < depth ∧ ∃ form others,
      jsonForm depth false item = .ok form ∧ jsonItems depth rest = .ok others ∧
        forms = form :: others := by
  -- The depth is checked first, then the item is converted, then the rest.
  rw [jsonItems]
  split
  · rename_i deep
    refine ⟨fun made => ?_, fun made => (made.1 deep).elim⟩
    cases made
  · rename_i shallow
    constructor
    · intro made
      obtain ⟨form, given, made⟩ := ok_of_bind made
      obtain ⟨others, given', made⟩ := ok_of_bind made
      exact ⟨shallow, form, others, given, given', (Except.ok.inj made).symm⟩
    · rintro ⟨-, form, others, given, given', rfl⟩
      rw [given, given']
      rfl

/-- Items in another order have the same forms in another order. -/
theorem jsonItems_perm {depth : Nat} {items items' forms : List Value} (perm : items.Perm items')
    (made : jsonItems depth items = .ok forms) :
    ∃ forms', jsonItems depth items' = .ok forms' ∧ forms.Perm forms' := by
  -- By induction on how the items were permuted; each item is converted by itself.
  induction perm generalizing forms with
  | nil => exact ⟨forms, made, .refl _⟩
  | cons item perm ih =>
    -- The tail is permuted alone.
    obtain ⟨shallow, form, others, given, given', rfl⟩ := jsonItems_cons_iff.mp made
    obtain ⟨others', ended, moved⟩ := ih given'
    exact ⟨_, jsonItems_cons_iff.mpr ⟨shallow, form, others', given, ended, rfl⟩, moved.cons form⟩
  | swap item item' rest =>
    obtain ⟨shallow, form, others, given, given', rfl⟩ := jsonItems_cons_iff.mp made
    obtain ⟨-, form', others', second, ended, rfl⟩ := jsonItems_cons_iff.mp given'
    have later := jsonItems_cons_iff.mpr ⟨shallow, form, others', given, ended, rfl⟩
    exact ⟨_, jsonItems_cons_iff.mpr ⟨shallow, form', _, second, later, rfl⟩, .swap _ _ _⟩
  | trans _ _ ih ih' =>
    obtain ⟨between, made', moved⟩ := ih made
    obtain ⟨forms', made'', moved'⟩ := ih' made'
    exact ⟨forms', made'', moved.trans moved'⟩

/-- Values in another order can be shown where they can be shown in the first one. -/
theorem all_canInspect_eq_of_perm {items items' : List Value} (perm : items.Perm items') :
    items.all canInspect = items'.all canInspect := by
  rw [Bool.eq_iff_iff, List.all_eq_true, List.all_eq_true]
  exact forall_congr' fun item => imp_congr_left perm.mem_iff

/-- A set can be sorted where each of its items can be shown. -/
theorem checkSortable_set (frozen : Bool) (items : List Value) :
    checkSortable (.set frozen items) =
      if items.all canInspect then .ok () else .error .unwritable :=
  rfl

/-- The list that forms are sorted to, where each of them can be shown. -/
def sortedForms? (forms : List Value) : Option Value :=
  if forms.all canInspect then some (.list (sorted forms)) else none

/-- The form of a set is the sorted list of its items' forms, where these can be shown. -/
theorem toOption_jsonSet (depth : Nat) (opened frozen : Bool) (items : List Value) :
    (jsonForm depth opened (.set frozen items)).toOption =
      (jsonItems (depth + 1) items).toOption.bind sortedForms? := by
  -- The items are converted before they are sorted, and either may fail.
  show (do
    let forms ← jsonItems (depth + 1) items
    checkSortable (.set frozen forms)
    return list (sorted forms)).toOption = _
  cases jsonItems (depth + 1) items with
  | error fault => rfl
  | ok forms =>
    show (do checkSortable (.set frozen forms); return list (sorted forms)).toOption =
      sortedForms? forms
    rw [checkSortable_set]
    unfold sortedForms?
    split <;> rfl

/-- The sorted forms of items do not depend on the order that the items come in. -/
theorem jsonSorted_eq_of_perm {depth : Nat} {items items' : List Value} (perm : items.Perm items') :
    (jsonItems depth items).toOption.bind sortedForms? =
      (jsonItems depth items').toOption.bind sortedForms? := by
  -- A permutation gives the same forms in another order, and forms that are shown alike are equal.
  cases made : jsonItems depth items with
  | error fault =>
    cases made' : jsonItems depth items' with
    | error fault' => rfl
    | ok forms' =>
      obtain ⟨forms, given, -⟩ := jsonItems_perm perm.symm made'
      exact nomatch made.symm.trans given
  | ok forms =>
    obtain ⟨forms', made', moved⟩ := jsonItems_perm perm made
    have json := isJson_of_jsonItems items depth made
    have same : sorted forms = sorted forms' := sorted_eq_of_perm moved
      fun form here other there => eq_of_inspect (json form here) (json other there)
    rw [made']
    show sortedForms? forms = sortedForms? forms'
    unfold sortedForms?
    rw [all_canInspect_eq_of_perm moved, same]

mutual

/-- The JSON form of a value does not tell how its sets are enumerated. -/
theorem jsonForm_reenumerated : {value value' : Value} → Reenumerated value value' →
    (depth : Nat) → (opened : Bool) →
      (jsonForm depth opened value).toOption = (jsonForm depth opened value').toOption
  | _, _, .same _, _, _ => rfl
  | _, _, .list inside, depth, _ | _, _, .tuple inside, depth, _ =>
    toOption_bind (jsonItems_reenumerated inside (depth + 1)) fun _ => rfl
  | _, _, .set moved inside, depth, _ => by
    have each := jsonItems_reenumerated inside (depth + 1)
    -- Sorting hides the order of the items, and then their forms are compared one by one.
    rw [toOption_jsonSet, toOption_jsonSet, jsonSorted_eq_of_perm moved, each]
  | _, _, .map inside, depth, _ =>
    toOption_bind (jsonEntries_reenumerated inside (depth + 1)) fun _ => rfl
  | _, _, .member inside, depth, opened => by
    have opens := jsonForm_reenumerated inside depth true
    unfold jsonForm
    cases opened with
    | true => rfl
    | false => exact opens
  | _, _, .node, _, _ => rfl
  | _, _, .projection, _, _ => rfl
termination_by structural _ _ inside => inside

/-- The JSON forms of items do not tell how the sets in them are enumerated. -/
theorem jsonItems_reenumerated : {items items' : List Value} → AllReenumerated items items' →
    (depth : Nat) → (jsonItems depth items).toOption = (jsonItems depth items').toOption
  -- By induction on the two lists.
  | _, _, .nil, _ => rfl
  | _, _, .cons first others, depth => by
    have here := jsonForm_reenumerated first depth false
    have later := jsonItems_reenumerated others depth
    unfold jsonItems
    split
    · rfl
    · exact toOption_bind here fun _ => toOption_bind later fun _ => rfl
termination_by structural _ _ inside => inside

/-- The JSON forms of entries do not tell how the sets in them are enumerated. -/
theorem jsonEntries_reenumerated : {entries entries' : List (Value × Value)} →
    EntriesReenumerated entries entries' → (depth : Nat) →
      (jsonEntries depth entries).toOption = (jsonEntries depth entries').toOption
  | _, _, .nil, _ => rfl
  | (key, _) :: _, (_, _) :: _, .cons name first others, depth => by
    have here := jsonForm_reenumerated first depth false
    have later := jsonEntries_reenumerated others depth
    cases name with
    | same =>
      cases key with
      | text name =>
        unfold jsonEntries
        dsimp only
        split
        · rfl
        · exact toOption_bind here fun _ => toOption_bind later fun _ => rfl
      | _ => rfl
    -- No other key is a text, so that neither map has a form.
    | _ => rfl
termination_by structural _ _ inside => inside

end

/--
The items of a set that are enumerated anew are sorted to one list and can be shown alike, or there
is one on either side that is no scalar.
-/
theorem sorted_eq_or_strange {items between items' : List Value} (moved : items.Perm between)
    (inside : AllReenumerated between items') :
    (sorted items = sorted items' ∧ items.all canInspect = items'.all canInspect) ∨
      ((∃ item ∈ items, item.isScalar = false) ∧ ∃ item ∈ items', item.isScalar = false) := by
  -- Either the items are all scalars, which are told apart by what is shown of them, or one of them
  -- is none.
  by_cases all : ∀ item ∈ items, item.isScalar = true
  · -- Scalars hold no sets, so that only their order can differ.
    have simple : ∀ item ∈ between, item.isCompound = false := by
      intro item among
      by_contra compound
      have other := isScalar_of_compound (Bool.not_eq_false _ ▸ compound)
      exact absurd (other.symm.trans (all item (moved.mem_iff.mpr among))) Bool.false_ne_true
    obtain rfl := inside.eq_of_simple simple
    exact Or.inl ⟨sorted_eq_of_perm moved fun item here other there =>
      eq_of_inspect_scalar (all item here) (all other there), all_canInspect_eq_of_perm moved⟩
  · -- An item that is no scalar has one on the other side that is none.
    obtain ⟨item, here, strange⟩ : ∃ item ∈ items, item.isScalar = false := by
      simpa using all
    obtain ⟨item', there, both⟩ := inside.exists_of_mem (moved.mem_iff.mp here)
    refine Or.inr ⟨⟨item, here, strange⟩, item', there, ?_⟩
    rcases both.eq_or_compound with rfl | ⟨-, compound⟩
    · exact strange
    · exact isScalar_of_compound compound

section Sends

variable {α : Type} {send : Value → Option α}

/-- Whether only scalars can be sent in a certain way. -/
def SendsScalars (send : Value → Option α) : Prop :=
  ∀ value given, send value = some given → value.isScalar = true

variable (scalars : SendsScalars send)
include scalars

/-- What is no scalar cannot be sent. -/
theorem SendsScalars.eq_none {value : Value} (other : value.isScalar = false) :
    send value = none := by
  cases sent : send value with
  | none => rfl
  | some given => exact absurd (other.symm.trans (scalars value given sent)) Bool.false_ne_true

/-- A value that is sent is sent in one way, however its sets are enumerated. -/
theorem SendsScalars.eq {value value' : Value} (inside : Reenumerated value value') :
    send value = send value' := by
  -- Where the two differ neither is a scalar, and then neither is sent.
  rcases inside.eq_or_compound with rfl | ⟨compound, compound'⟩
  · rfl
  · rw [scalars.eq_none (isScalar_of_compound compound),
      scalars.eq_none (isScalar_of_compound compound')]

/-- So are the items of a list. -/
theorem SendsScalars.mapM_eq {items items' : List Value} :
    AllReenumerated items items' → items.mapM send = items'.mapM send
  | .nil => rfl
  | .cons first others => by
    rw [List.mapM_cons, List.mapM_cons, scalars.eq first, SendsScalars.mapM_eq others]

/-- A list with an item that is no scalar cannot be sent in any order. -/
theorem SendsScalars.mapM_sorted_eq_none {items : List Value}
    (strange : ∃ item ∈ items, item.isScalar = false) : (sorted items).mapM send = none := by
  obtain ⟨item, among, other⟩ := strange
  exact mapM_eq_none (List.mem_mergeSort.mpr among) (scalars.eq_none other)

/-- And so are the items of a set, which are sorted. -/
theorem SendsScalars.mapM_sorted_eq {items between items' : List Value}
    (moved : items.Perm between) (inside : AllReenumerated between items') :
    (sorted items).mapM send = (sorted items').mapM send := by
  rcases sorted_eq_or_strange moved inside with ⟨same, -⟩ | ⟨strange, strange'⟩
  · rw [same]
  · rw [scalars.mapM_sorted_eq_none strange, scalars.mapM_sorted_eq_none strange']

/-- The items of a container, in their order or sorted, are sent in one way. -/
theorem SendsScalars.orderedItems_eq {value value' : Value} (inside : Reenumerated value value') :
    (value.orderedItems?.map fun items => (items.isEmpty, items.mapM send)) =
      value'.orderedItems?.map fun items => (items.isEmpty, items.mapM send) := by
  -- A list or a tuple keeps its order; the members of a set are sorted before they are sent.
  cases inside with
  | list inside | tuple inside =>
    exact congrArg some
      (congrArg₂ Prod.mk (isEmpty_eq_of_length inside.length_eq) (scalars.mapM_eq inside))
  | set moved inside =>
    rename_i items between items'
    have length : (sorted items).length = (sorted items').length := by
      have sorted_ (items : List Value) : (sorted items).length = items.length :=
        List.length_mergeSort items
      rw [sorted_, sorted_, moved.length_eq, inside.length_eq]
    exact congrArg some
      (congrArg₂ Prod.mk (isEmpty_eq_of_length length) (scalars.mapM_sorted_eq moved inside))
  | _ => rfl

/-- And what is no container is sent as the one item of a list. -/
theorem SendsScalars.orderedOrSelf_eq {value value' : Value} (inside : Reenumerated value value') :
    (value.orderedItems?.getD [value]).isEmpty = (value'.orderedItems?.getD [value']).isEmpty ∧
      (value.orderedItems?.getD [value]).mapM send =
        (value'.orderedItems?.getD [value']).mapM send := by
  have both := scalars.orderedItems_eq inside
  -- A container is enumerated anew as a container, and what is none as what is none.
  cases listed : value.orderedItems? with
  | none =>
    cases listed' : value'.orderedItems? with
    | none => exact ⟨rfl, scalars.mapM_eq (.cons inside .nil)⟩
    | some items' =>
      rw [listed, listed'] at both
      cases both
  | some items =>
    cases listed' : value'.orderedItems? with
    | none =>
      rw [listed, listed'] at both
      cases both
    | some items' =>
      rw [listed, listed'] at both
      exact Prod.mk.inj (Option.some.inj both)

end Sends

/-- What stands for a scalar that is a finite number, a truth value or a text is one itself. -/
theorem isScalar_of_scalar {value : Value} (simple : value.scalar.isSimple = true) :
    value.isScalar = true := by
  -- A member is brought to the scalar it stands for, and anything else is its own.
  have plain {value : Value} (simple : value.stringified.isSimple = true) :
      value.isSimple = true := by
    cases value with
    | bool | int | float | text | uuid | moment | date | time => exact simple
    | _ => cases simple
  cases value with
  | operator => rfl
  | member inner => exact plain simple
  | bool | int | text | uuid | moment | date | time => rfl
  | float => exact simple
  | _ => cases simple

end Value

namespace Parameter

/-- Only scalars are parameters of their own. -/
theorem ofScalar_scalars : Value.SendsScalars fun value => (ofScalar value).toOption := by
  -- What is written as a parameter is a scalar once it is brought to one.
  intro value given sent
  refine Value.isScalar_of_scalar ?_
  dsimp only [ofScalar] at sent
  generalize value.scalar = form at sent ⊢
  cases form with
  | bool | int | text => rfl
  | float number =>
    dsimp only at sent
    split at sent
    · assumption
    · cases sent
  | _ => cases sent

/-- Only scalars are items of lists. -/
theorem item_scalars : Value.SendsScalars fun value => (item value).toOption := by
  -- An item of a list is written as a parameter is, or not at all.
  intro value given sent
  dsimp only [item] at sent
  cases made : ofScalar value with
  | ok parameter => exact ofScalar_scalars value parameter (congrArg Except.toOption made)
  | error fault =>
    rw [made] at sent
    split at sent <;> cases sent

/-- A list parameter is made of the items that are sent. -/
theorem toOption_ofItems (items : List Value) : (ofItems items).toOption =
    if items.isEmpty then none
    else (items.mapM fun value => (item value).toOption).map fun parts =>
      .text (",".intercalate parts) := by
  -- Only an empty list is refused as a whole; otherwise each item is written by itself.
  unfold ofItems
  split
  · rfl
  · rw [← toOption_mapM]
    cases items.mapM item <;> rfl

/-- A set with an item that is no scalar has no parameter. -/
theorem toOption_ofValue_strange {frozen : Bool} {items : List Value}
    (strange : ∃ item ∈ items, item.isScalar = false) :
    (ofValue (.set frozen items)).toOption = none := by
  -- Sorted or not, an item that is no scalar cannot be written.
  show (do Value.checkSortable (.set frozen items); ofItems (Value.sorted items)).toOption = none
  rw [Value.checkSortable_set]
  split
  · show (ofItems (Value.sorted items)).toOption = none
    rw [toOption_ofItems, item_scalars.mapM_sorted_eq_none strange, Option.map_none, ite_self]
  · rfl

/-- The parameter of a literal does not tell how its sets are enumerated. -/
theorem toOption_ofValue {value value' : Value} (inside : value.Reenumerated value') :
    (ofValue value).toOption = (ofValue value').toOption := by
  -- Lists keep their order and sets are sorted; where the order of a set cannot be told, it has an
  -- item that cannot be written anyway.
  cases inside with
  | same => rfl
  | list inside | tuple inside =>
    show (ofItems _).toOption = (ofItems _).toOption
    rw [toOption_ofItems, toOption_ofItems, isEmpty_eq_of_length inside.length_eq,
      item_scalars.mapM_eq inside]
  | set moved inside =>
    rename_i frozen items between items'
    rcases Value.sorted_eq_or_strange moved inside with ⟨same, shown⟩ | ⟨strange, strange'⟩
    · show (do Value.checkSortable (.set frozen items); ofItems (Value.sorted items)).toOption =
        (do Value.checkSortable (.set frozen items'); ofItems (Value.sorted items')).toOption
      rw [Value.checkSortable_set, Value.checkSortable_set, same, shown]
    · rw [toOption_ofValue_strange strange, toOption_ofValue_strange strange']
  | map => rfl
  | «member» inside => exact ofScalar_scalars.eq (.member inside)
  | node => exact ofScalar_scalars.eq .node
  | projection => exact ofScalar_scalars.eq .projection

end Parameter

namespace MatchValue

/-- Only scalars are matched. -/
theorem ofValue_scalars : Value.SendsScalars fun value => (ofValue value).toOption := by
  -- What is matched is a scalar once it is brought to one.
  intro value given sent
  refine Value.isScalar_of_scalar ?_
  dsimp only [ofValue] at sent
  generalize value.scalar = form at sent ⊢
  cases form with
  | bool | int | text => rfl
  | _ => cases sent

end MatchValue

namespace MatchList

/-- Only scalars are among the texts of a match. -/
theorem text_scalars : Value.SendsScalars fun value => text? value.scalar := by
  -- A text is a scalar.
  intro value given sent
  refine Value.isScalar_of_scalar ?_
  dsimp only at sent
  generalize value.scalar = form at sent ⊢
  cases form with
  | text => rfl
  | _ => cases sent

/-- Only scalars are among its integers. -/
theorem int_scalars : Value.SendsScalars fun value => int? value.scalar := by
  -- An integer is a scalar.
  intro value given sent
  refine Value.isScalar_of_scalar ?_
  dsimp only at sent
  generalize value.scalar = form at sent ⊢
  cases form with
  | int => rfl
  | _ => cases sent

/-- An any-of match is made of texts or, failing that, of integers, where a set can be sorted. -/
theorem toOption_ofValue_eq {value : Value} (sortable : value.checkSortable = .ok ()) :
    (ofValue value).toOption =
      let items := value.orderedItems?.getD [value]
      if items.isEmpty then none
      else ((items.mapM fun value => text? value.scalar).map texts).or
        ((items.mapM fun value => int? value.scalar).map ints) := by
  unfold ofValue
  rw [sortable]
  show (if _ then Except.error _ else _).toOption = _
  dsimp only
  rw [List.isEmpty_map]
  split
  · rfl
  · have scalars {α : Type} (read : Value → Option α) (items : List Value) :
        (items.map Value.scalar).mapM read = items.mapM fun value => read value.scalar := by
      induction items with
      | nil => rfl
      | cons item rest ih => rw [List.map_cons, List.mapM_cons, List.mapM_cons, ih]
    rw [scalars, scalars]
    cases (value.orderedItems?.getD [value]).mapM fun value => text? value.scalar <;>
      cases (value.orderedItems?.getD [value]).mapM fun value => int? value.scalar <;> rfl

/-- The any-of match of a literal does not tell how its sets are enumerated. -/
theorem toOption_ofValue {value value' : Value} (inside : value.Reenumerated value') :
    (ofValue value).toOption = (ofValue value').toOption := by
  -- Words are looked for first and integers then; both come in the order of the sorted items.
  have sortable {value value' : Value} (inside : value.Reenumerated value')
      (passes : value.checkSortable = .ok ()) (passes' : value'.checkSortable = .ok ()) :
      (ofValue value).toOption = (ofValue value').toOption := by
    obtain ⟨empty, words⟩ := text_scalars.orderedOrSelf_eq inside
    obtain ⟨-, numbers⟩ := int_scalars.orderedOrSelf_eq inside
    rw [toOption_ofValue_eq passes, toOption_ofValue_eq passes']
    dsimp only
    rw [empty, words, numbers]
  cases inside with
  | same => rfl
  | set moved inside =>
    rename_i frozen items between items'
    rcases Value.sorted_eq_or_strange moved inside with ⟨same, shown⟩ | ⟨strange, strange'⟩
    · unfold ofValue
      rw [Value.checkSortable_set, Value.checkSortable_set, shown]
      dsimp only [Value.orderedItems?, Option.getD_some]
      rw [same]
    · -- Nothing but scalars is matched, whether or not the set can be sorted.
      have none_ {items : List Value} (strange : ∃ item ∈ items, item.isScalar = false) :
          (ofValue (.set frozen items)).toOption = none := by
        cases passes : Value.checkSortable (.set frozen items) with
        | error fault =>
          unfold ofValue
          rw [passes]
          rfl
        | ok passed =>
          rw [toOption_ofValue_eq passes]
          dsimp only [Value.orderedItems?, Option.getD_some]
          rw [text_scalars.mapM_sorted_eq_none strange, int_scalars.mapM_sorted_eq_none strange]
          exact ite_self _
      rw [none_ strange, none_ strange']
  | list inside => exact sortable (.list inside) rfl rfl
  | tuple inside => exact sortable (.tuple inside) rfl rfl
  | map inside => exact sortable (.map inside) rfl rfl
  | «member» inside => exact sortable (.member inside) rfl rfl
  | node => exact sortable .node rfl rfl
  | projection => exact sortable .projection rfl rfl

end MatchList

namespace Bound

/-- The end of a range does not tell how sets are enumerated, since no set is one. -/
theorem ofValue_eq {value value' : Value} (inside : value.Reenumerated value') :
    ofValue value = ofValue value' ∨ ∃ fault fault',
      ofValue value = .error (.unsuited fault) ∧ ofValue value' = .error (.unsuited fault') := by
  -- A bound is a single scalar, of which there is one enumeration.
  have compounds {value : Value} (compound : value.isCompound = true) :
      ∃ fault, ofValue value = .error (.unsuited fault) := by
    cases value with
    | list | tuple | set | map | member | node | projection => exact ⟨_, rfl⟩
    | _ => cases compound
  rcases inside.eq_or_compound with rfl | ⟨compound, compound'⟩
  · exact Or.inl rfl
  · obtain ⟨fault, ended⟩ := compounds compound
    obtain ⟨fault', ended'⟩ := compounds compound'
    exact Or.inr ⟨fault, fault', ended, ended'⟩

end Bound

namespace PointId

/-- Only scalars are identifiers of points. -/
theorem ofValue_scalars : Value.SendsScalars fun value => (ofValue value).toOption := by
  intro value given sent
  cases value with
  | int | uuid | text => rfl
  | _ => cases sent

end PointId

end ContentQuery
