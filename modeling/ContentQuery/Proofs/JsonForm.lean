import ContentQuery.Format.Json
import ContentQuery.Proofs.Compilation

/-! JSON forms: the form of a form is the form itself, and so it is for every item of a list. -/

namespace ContentQuery.Value

/-- Items are their own forms where each of them is one, at a depth that may hold values. -/
theorem jsonItems_eq_self {depth : Nat} {items : List Value} :
    jsonItems depth items = .ok items ↔
      ∀ item ∈ items, depth ≤ maxJsonDepth ∧ jsonForm depth false item = .ok item := by
  -- By induction on the items: the list is its own form when each item is.
  induction items with
  | nil => simp [jsonItems]
  | cons item rest ih =>
    unfold jsonItems
    rw [List.forall_mem_cons, ← ih]
    split
    · rename_i deep
      exact ⟨nofun, fun ⟨⟨shallow, _⟩, _⟩ => absurd shallow (by omega)⟩
    · rename_i deep
      constructor
      · intro made
        obtain ⟨first, given, made⟩ := ok_of_bind made
        obtain ⟨others, given', made⟩ := ok_of_bind made
        cases made
        exact ⟨⟨by omega, given⟩, given'⟩
      · rintro ⟨⟨-, given⟩, given'⟩
        rw [given, given']
        rfl

mutual

/-- The form of a value at a depth is its own form there, taken out of an enumeration or not. -/
theorem jsonForm_of_form : (value : Value) → (depth : Nat) → (opened opened' : Bool) →
    {form : Value} → jsonForm depth opened value = .ok form →
      jsonForm depth opened' form = .ok form
  | .null, _, _, _, _, made | .bool _, _, _, _, _, made | .int _, _, _, _, _, made
  | .text _, _, _, _, _, made | .uuid _, _, _, _, _, made | .moment _, _, _, _, _, made
  | .date _, _, _, _, _, made | .time _, _, _, _, _, made => by
    cases made
    rfl
  | .float number, _, _, _, _, made => by
    unfold jsonForm at made
    split at made
    · rename_i finite
      cases made
      simp [jsonForm, finite]
    · exact nomatch made
  -- An operator is taken out of its enumeration once, and then it is a text.
  | .operator _, _, opened, _, _, made => by
    unfold jsonForm at made
    split at made
    · exact nomatch made
    · cases made
      rfl
  | .member value, depth, opened, opened', _, made => by
    unfold jsonForm at made
    split at made
    · exact nomatch made
    · exact jsonForm_of_form value depth true opened' made
  | .list items, depth, _, _, _, made | .tuple items, depth, _, _, _, made => by
    obtain ⟨forms, given, same⟩ := ok_of_bind made
    cases same
    show (do return Value.list (← jsonItems (depth + 1) forms)) = _
    rw [jsonItems_of_forms items (depth + 1) given]
    rfl
  | .set _ items, depth, _, _, _, made => by
    obtain ⟨forms, given, made⟩ := ok_of_bind made
    obtain ⟨-, -, same⟩ := ok_of_bind made
    cases same
    -- Sorting changes the order only, and each form stays its own.
    have own := jsonItems_eq_self.mp (jsonItems_of_forms items (depth + 1) given)
    have sorted_ : jsonItems (depth + 1) (sorted forms) = .ok (sorted forms) :=
      jsonItems_eq_self.mpr fun form member => own form (List.mem_mergeSort.mp member)
    show (do return Value.list (← jsonItems (depth + 1) (sorted forms))) = _
    rw [sorted_]
    rfl
  | .map entries, depth, _, _, _, made => by
    obtain ⟨forms, given, same⟩ := ok_of_bind made
    cases same
    show (do return Value.map (← jsonEntries (depth + 1) forms)) = _
    rw [jsonEntries_of_forms entries (depth + 1) given]
    rfl
  | .bytes _, _, _, _, _, made | .foreign, _, _, _, _, made | .node _ _ _ _ _ _, _, _, _, _, made
  | .sortKey _, _, _, _, _, made | .projection _, _, _, _, _, made => nomatch made
termination_by structural value => value

/-- The forms of items are their own forms. -/
theorem jsonItems_of_forms : (items : List Value) → (depth : Nat) → {forms : List Value} →
    jsonItems depth items = .ok forms → jsonItems depth forms = .ok forms
  -- By induction on the items; a form lies as deep as what it was made of.
  | [], _, _, made => by
    cases made
    rfl
  | item :: rest, depth, _, made => by
    unfold jsonItems at made
    split at made
    · exact nomatch made
    · rename_i shallow
      obtain ⟨first, given, made⟩ := ok_of_bind made
      obtain ⟨others, given', made⟩ := ok_of_bind made
      cases made
      unfold jsonItems
      rw [if_neg shallow, jsonForm_of_form item depth false false given,
        jsonItems_of_forms rest depth given']
      rfl
termination_by structural items => items

/-- The forms of entries are their own forms. -/
theorem jsonEntries_of_forms : (entries : List (Value × Value)) → (depth : Nat) →
    {forms : List (Value × Value)} → jsonEntries depth entries = .ok forms →
      jsonEntries depth forms = .ok forms
  -- By induction on the entries, whose keys are texts and stay as they are.
  | [], _, _, made => by
    cases made
    rfl
  | (key, value) :: rest, depth, _, made => by
    unfold jsonEntries at made
    split at made
    · split at made
      · exact nomatch made
      · rename_i shallow
        obtain ⟨first, given, made⟩ := ok_of_bind made
        obtain ⟨others, given', made⟩ := ok_of_bind made
        cases made
        unfold jsonEntries
        dsimp only
        rw [if_neg shallow, jsonForm_of_form value depth false false given,
          jsonEntries_of_forms rest depth given']
        rfl
    · exact nomatch made
termination_by structural entries => entries

end

-- The depth is only compared with its limit, which a smaller depth does not exceed sooner.
mutual

/-- What has a form at a depth has the same form one level up. -/
theorem jsonForm_of_deeper : (value : Value) → (depth : Nat) → (opened : Bool) → {form : Value} →
    jsonForm (depth + 1) opened value = .ok form → jsonForm depth opened value = .ok form
  -- By induction on the value: the depth only ever refuses, and it refuses less further up.
  | .null, _, _, _, made | .bool _, _, _, _, made | .int _, _, _, _, made | .text _, _, _, _, made
  | .uuid _, _, _, _, made | .moment _, _, _, _, made | .date _, _, _, _, made
  | .time _, _, _, _, made | .float _, _, _, _, made | .operator _, _, _, _, made
  | .bytes _, _, _, _, made | .foreign, _, _, _, made | .node _ _ _ _ _ _, _, _, _, made
  | .sortKey _, _, _, _, made | .projection _, _, _, _, made => made
  | .member value, depth, opened, _, made => by
    unfold jsonForm at made ⊢
    split
    · rename_i again
      rw [if_pos again] at made
      exact nomatch made
    · rename_i first
      rw [if_neg first] at made
      exact jsonForm_of_deeper value depth true made
  | .list items, depth, _, _, made | .tuple items, depth, _, _, made
  | .set _ items, depth, _, _, made => by
    obtain ⟨forms, given, same⟩ := ok_of_bind made
    unfold jsonForm
    rw [jsonItems_of_deeper items (depth + 1) given]
    exact same
  | .map entries, depth, _, _, made => by
    obtain ⟨forms, given, same⟩ := ok_of_bind made
    unfold jsonForm
    rw [jsonEntries_of_deeper entries (depth + 1) given]
    exact same
termination_by structural value => value

/-- Items that have forms at a depth have the same forms one level up. -/
theorem jsonItems_of_deeper : (items : List Value) → (depth : Nat) → {forms : List Value} →
    jsonItems (depth + 1) items = .ok forms → jsonItems depth items = .ok forms
  -- By induction on the items, each of which fits one level up as well.
  | [], _, _, made => made
  | item :: rest, depth, _, made => by
    unfold jsonItems at made
    split at made
    · exact nomatch made
    · rename_i shallow
      obtain ⟨first, given, made⟩ := ok_of_bind made
      obtain ⟨others, given', made⟩ := ok_of_bind made
      unfold jsonItems
      rw [if_neg (by omega), jsonForm_of_deeper item depth false given,
        jsonItems_of_deeper rest depth given']
      exact made
termination_by structural items => items

/-- Entries that have forms at a depth have the same forms one level up. -/
theorem jsonEntries_of_deeper : (entries : List (Value × Value)) → (depth : Nat) →
    {forms : List (Value × Value)} → jsonEntries (depth + 1) entries = .ok forms →
      jsonEntries depth entries = .ok forms
  -- By induction on the entries, as for items.
  | [], _, _, made => made
  | (key, value) :: rest, depth, _, made => by
    unfold jsonEntries at made ⊢
    split at made
    · split at made
      · exact nomatch made
      · rename_i shallow
        obtain ⟨first, given, made⟩ := ok_of_bind made
        obtain ⟨others, given', made⟩ := ok_of_bind made
        rw [if_neg (by omega), jsonForm_of_deeper value depth false given,
          jsonEntries_of_deeper rest depth given']
        exact made
    · exact nomatch made
termination_by structural entries => entries

end

/-- The form of a literal is its own form. -/
theorem toJson_of_form {value form : Value} (made : value.toJson = .ok form) :
    form.toJson = .ok form :=
  jsonForm_of_form value 0 false false made

/-- The items of a list that is a form are forms. -/
theorem toJson_of_mem {items : List Value} (own : (list items).toJson = .ok (list items))
    {item : Value} (member : item ∈ items) : item.toJson = .ok item := by
  obtain ⟨forms, given, same⟩ := ok_of_bind own
  cases same
  exact jsonForm_of_deeper item 0 false (jsonItems_eq_self.mp given item member).2

/-- Forms are the forms of items that are forms already. -/
theorem eq_of_jsonItems {items forms : List Value}
    (own : ∀ item ∈ items, item.toJson = .ok item) (made : jsonItems 1 items = .ok forms) :
    forms = items := by
  -- The form of an item inside a list is the one that the item has by itself.
  induction items generalizing forms with
  | nil => exact (Except.ok.inj made).symm
  | cons item rest ih =>
    obtain ⟨alone, others⟩ := List.forall_mem_cons.mp own
    unfold jsonItems at made
    rw [if_neg (by decide)] at made
    obtain ⟨first, given, made⟩ := ok_of_bind made
    obtain ⟨remaining, given', made⟩ := ok_of_bind made
    cases made
    rw [ih others given', Except.ok.inj ((jsonForm_of_deeper item 0 false given).symm.trans alone)]

/-- A list of forms that has a form is its own form. -/
theorem eq_of_toJson_list {items : List Value} {form : Value}
    (own : ∀ item ∈ items, item.toJson = .ok item) (made : (list items).toJson = .ok form) :
    form = list items := by
  obtain ⟨forms, given, same⟩ := ok_of_bind made
  cases same
  rw [eq_of_jsonItems own given]

end ContentQuery.Value
