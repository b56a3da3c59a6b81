import ContentQuery.Proofs.JsonForm
import Mathlib.Algebra.Group.Nat.Defs
import Mathlib.Algebra.Ring.Int.Defs

/-! Integers that have too many digits to be written, and the values that hold none. -/

namespace ContentQuery

/-- An integer can be written below the power of ten that has a digit too many. -/
theorem Text.isWritable_iff (value : Int) :
    Text.isWritable value = true ↔ value.natAbs < 10 ^ Text.maxDecimalDigits := by
  unfold Text.isWritable
  rw [decide_eq_true_iff]
  exact Nat.length_toDigits_le_iff (by decide) (by decide)

/-- A power of ten with as many zeros as an integer may have digits cannot be written. -/
theorem Text.not_isWritable_pow {zeros : Nat} (many : Text.maxDecimalDigits ≤ zeros) :
    Text.isWritable (10 ^ zeros) = false := by
  -- The powers are compared by their exponents, so that neither of them is computed.
  have reaches : 10 ^ Text.maxDecimalDigits ≤ ((10 : Int) ^ zeros).natAbs := by
    rw [Int.natAbs_pow]
    exact Nat.pow_le_pow_right (by decide) many
  exact Bool.eq_false_iff.mpr fun writable =>
    absurd ((Text.isWritable_iff _).mp writable) (Nat.not_lt.mpr reaches)

/-- An integer with more digits than can be written, which nothing computes. -/
@[irreducible]
def tooLong : Int :=
  Int.pow 10 5000

/-- It cannot be written. -/
theorem not_isWritable_tooLong : Text.isWritable tooLong = false := by
  unfold tooLong
  exact Text.not_isWritable_pow (by decide)

namespace Value

/-- Values can be shown when each of them can. -/
theorem canInspectAll_iff {items : List Value} :
    canInspectAll items = true ↔ ∀ item ∈ items, item.canInspect = true := by
  induction items with
  | nil => simp [canInspectAll]
  | cons item rest ih => simp [canInspectAll, ih]

/-- Entries can be shown when each key and each value can. -/
theorem canInspectEntries_iff {entries : List (Value × Value)} :
    canInspectEntries entries = true ↔
      ∀ entry ∈ entries, entry.1.canInspect = true ∧ entry.2.canInspect = true := by
  induction entries with
  | nil => simp [canInspectEntries]
  | cons entry rest ih => simp [canInspectEntries, ih, and_assoc]

/-- What can be shown so that its kind is told can be shown plainly. -/
theorem canDisplay_of_canInspect {value : Value} (shown : value.canInspect = true) :
    value.canDisplay = true := by
  -- Only a member of an enumeration shows less when it is shown plainly.
  cases value <;> first | rfl | exact shown

/-- The scalar that a value stands for can be shown where the value can. -/
theorem canInspect_scalar {value : Value} (shown : value.canInspect = true) :
    value.scalar.canInspect = true := by
  -- Only a member of an enumeration stands for a value inside it.
  cases value with
  | member inner => cases inner <;> first | rfl | exact shown
  | _ => first | rfl | exact shown

/-- The items of a container can be shown where the container can. -/
theorem canInspect_of_items {value : Value} (shown : value.canInspect = true) :
    ∀ item ∈ value.items?.getD [value], item.canInspect = true := by
  cases value with
  | list items | tuple items | set _ items => exact canInspectAll_iff.mp shown
  | _ => exact List.forall_mem_singleton.mpr shown

/-- Items are put in an order without being lost or made. -/
theorem mem_orderedItems {value item : Value} :
    item ∈ value.orderedItems?.getD [value] ↔ item ∈ value.items?.getD [value] := by
  cases value with
  | set _ items => exact List.mem_mergeSort
  | _ => rfl

/-- What is looked up in entries that can be shown can be shown. -/
theorem canInspect_of_lookup? {name : String} {entries : List (Value × Value)} {value : Value}
    (shown : canInspectEntries entries = true) (found : lookup? name entries = some value) :
    value.canInspect = true := by
  -- By induction on the entries, of which each can be shown.
  induction entries with
  | nil => exact nomatch found
  | cons entry rest ih =>
    rw [lookup?_cons] at found
    obtain ⟨here, later⟩ := List.forall_mem_cons.mp (canInspectEntries_iff.mp shown)
    split at found
    · exact Option.some.inj found ▸ here.2
    · exact ih (canInspectEntries_iff.mpr later) found

/-- A set whose items can be shown can be sorted. -/
theorem checkSortable_of_shown {frozen : Bool} {items : List Value}
    (shown : canInspectAll items = true) : checkSortable (.set frozen items) = .ok () :=
  if_pos (List.all_eq_true.mpr (canInspectAll_iff.mp shown))

-- A form holds the integers of its literal: texts take the place of what has no integer in it.
mutual

/-- The JSON form of a value can be shown just where the value can. -/
theorem canInspect_of_form : (value : Value) → (depth : Nat) → (opened : Bool) →
    {form : Value} → jsonForm depth opened value = .ok form → form.canInspect = value.canInspect
  -- By induction on the value, whose form is made of the forms of its parts.
  | .null, _, _, _, made | .bool _, _, _, _, made | .int _, _, _, _, made | .text _, _, _, _, made
  | .uuid _, _, _, _, made | .moment _, _, _, _, made | .date _, _, _, _, made
  | .time _, _, _, _, made => by
    cases made
    rfl
  | .float number, _, _, _, made => by
    unfold jsonForm at made
    split at made
    · cases made
      rfl
    · exact nomatch made
  | .operator _, _, _, _, made => by
    unfold jsonForm at made
    split at made
    · exact nomatch made
    · cases made
      rfl
  | .member value, depth, _, _, made => by
    unfold jsonForm at made
    split at made
    · exact nomatch made
    · exact canInspect_of_form value depth true made
  | .list items, depth, _, _, made | .tuple items, depth, _, _, made => by
    obtain ⟨forms, given, same⟩ := ok_of_bind made
    cases same
    exact canInspectAll_of_forms items (depth + 1) given
  | .set _ items, depth, _, _, made => by
    obtain ⟨forms, given, made⟩ := ok_of_bind made
    obtain ⟨-, -, same⟩ := ok_of_bind made
    cases same
    have all := canInspectAll_of_forms items (depth + 1) given
    -- Sorting changes the order only.
    rw [show (set _ items).canInspect = canInspectAll items from rfl, ← all, Bool.eq_iff_iff]
    exact canInspectAll_iff.trans
      ((forall_congr' fun form => imp_congr_left List.mem_mergeSort).trans canInspectAll_iff.symm)
  | .map entries, depth, _, _, made => by
    obtain ⟨forms, given, same⟩ := ok_of_bind made
    cases same
    exact canInspectEntries_of_forms entries (depth + 1) given
  | .bytes _, _, _, _, made | .foreign, _, _, _, made | .node _ _ _ _ _ _, _, _, _, made
  | .sortKey _, _, _, _, made | .projection _, _, _, _, made => nomatch made
termination_by structural value => value

/-- The JSON forms of items can be shown just where the items can. -/
theorem canInspectAll_of_forms : (items : List Value) → (depth : Nat) → {forms : List Value} →
    jsonItems depth items = .ok forms → canInspectAll forms = canInspectAll items
  -- By induction on the items: a form can be shown exactly where its item can.
  | [], _, _, made => by
    cases made
    rfl
  | item :: rest, depth, _, made => by
    unfold jsonItems at made
    split at made
    · exact nomatch made
    · obtain ⟨first, given, made⟩ := ok_of_bind made
      obtain ⟨others, given', made⟩ := ok_of_bind made
      cases made
      rw [canInspectAll, canInspectAll, canInspect_of_form item depth false given,
        canInspectAll_of_forms rest depth given']
termination_by structural items => items

/-- The JSON forms of entries can be shown just where the entries can. -/
theorem canInspectEntries_of_forms : (entries : List (Value × Value)) → (depth : Nat) →
    {forms : List (Value × Value)} → jsonEntries depth entries = .ok forms →
      canInspectEntries forms = canInspectEntries entries
  -- By induction on the entries; their keys are texts and can always be shown.
  | [], _, _, made => by
    cases made
    rfl
  | (key, value) :: rest, depth, _, made => by
    unfold jsonEntries at made
    split at made
    · split at made
      · exact nomatch made
      · obtain ⟨first, given, made⟩ := ok_of_bind made
        obtain ⟨others, given', made⟩ := ok_of_bind made
        cases made
        rw [canInspectEntries, canInspectEntries, canInspect_of_form value depth false given,
          canInspectEntries_of_forms rest depth given']
    · exact nomatch made
termination_by structural entries => entries

end

mutual

/-- A value that can be shown does not fail for want of being written. -/
theorem not_unwritable_jsonForm : (value : Value) → (depth : Nat) → (opened : Bool) →
    value.canInspect = true → jsonForm depth opened value ≠ .error .unwritable
  -- By induction on the value. A set shows what it sorts, and a map shows a key that it refuses;
  -- both can be shown.
  | .null, _, _, _ | .bool _, _, _, _ | .int _, _, _, _ | .text _, _, _, _ | .uuid _, _, _, _
  | .moment _, _, _, _ | .date _, _, _, _ | .time _, _, _, _ | .bytes _, _, _, _
  | .foreign, _, _, _ | .node _ _ _ _ _ _, _, _, _ | .sortKey _, _, _, _
  | .projection _, _, _, _ => nofun
  | .float _, _, _, _ | .operator _, _, _, _ => by
    unfold jsonForm
    split <;> exact nofun
  | .member value, depth, _, shown => by
    have inside := not_unwritable_jsonForm value depth true shown
    unfold jsonForm
    split
    · exact nofun
    · exact inside
  | .list items, depth, _, shown | .tuple items, depth, _, shown => by
    intro failed
    rcases error_of_bind failed with failed | ⟨forms, -, failed⟩
    · exact not_unwritable_jsonItems items (depth + 1) shown failed
    · exact nomatch failed
  | .set _ items, depth, _, shown => by
    intro failed
    rcases error_of_bind failed with failed | ⟨forms, given, failed⟩
    · exact not_unwritable_jsonItems items (depth + 1) shown failed
    · -- The forms can be shown with the items, so that they are sorted.
      rw [checkSortable_of_shown
        ((canInspectAll_of_forms items (depth + 1) given).trans shown)] at failed
      exact nomatch failed
  | .map entries, depth, _, shown => by
    intro failed
    rcases error_of_bind failed with failed | ⟨forms, -, failed⟩
    · exact not_unwritable_jsonEntries entries (depth + 1) shown failed
    · exact nomatch failed
termination_by structural value => value

/-- Neither do items that can be shown. -/
theorem not_unwritable_jsonItems : (items : List Value) → (depth : Nat) →
    canInspectAll items = true → jsonItems depth items ≠ .error .unwritable
  -- By induction on the items.
  | [], _, _ => nofun
  | item :: rest, depth, shown => by
    obtain ⟨here, later⟩ := Bool.and_eq_true_iff.mp shown
    intro failed
    unfold jsonItems at failed
    split at failed
    · exact nomatch failed
    · rcases error_of_bind failed with failed | ⟨form, -, failed⟩
      · exact not_unwritable_jsonForm item depth false here failed
      · rcases error_of_bind failed with failed | ⟨forms, -, failed⟩
        · exact not_unwritable_jsonItems rest depth later failed
        · exact nomatch failed
termination_by structural items => items

/-- Nor do entries that can be shown. -/
theorem not_unwritable_jsonEntries : (entries : List (Value × Value)) → (depth : Nat) →
    canInspectEntries entries = true → jsonEntries depth entries ≠ .error .unwritable
  -- By induction on the entries; a key that is no text is refused by a message that can be written.
  | [], _, _ => nofun
  | (key, value) :: rest, depth, shown => by
    obtain ⟨here, later⟩ := Bool.and_eq_true_iff.mp shown
    obtain ⟨keyShown, valueShown⟩ := Bool.and_eq_true_iff.mp here
    intro failed
    unfold jsonEntries at failed
    split at failed
    · split at failed
      · exact nomatch failed
      · rcases error_of_bind failed with failed | ⟨form, -, failed⟩
        · exact not_unwritable_jsonForm value depth false valueShown failed
        · rcases error_of_bind failed with failed | ⟨forms, -, failed⟩
          · exact not_unwritable_jsonEntries rest depth later failed
          · exact nomatch failed
    · rw [if_pos keyShown] at failed
      exact nomatch failed
termination_by structural entries => entries

end

end Value

end ContentQuery
