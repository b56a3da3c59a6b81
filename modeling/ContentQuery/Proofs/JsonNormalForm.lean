import ContentQuery.Proofs.Enumeration
import ContentQuery.Proofs.Writing

/-! Which literals have JSON forms, and that conversion leaves a form and all its parts alone. -/

namespace ContentQuery.Value

/-- A value taken out of the enumeration that it is in, if it is in one. -/
def unwrapped : Value → Value
  | .member value => value
  | .operator value => .text value.symbol
  | other => other

/-- Whether a value that has no parts has a JSON form. -/
def isJsonScalar : Value → Bool
  | .null | .bool _ | .int _ | .text _ | .uuid _ | .moment _ | .date _ | .time _ => true
  | .float number => number.isFinite
  | _ => false

/-- Values built from such scalars, where each part may be in an enumeration. -/
inductive Built : Value → Prop
  | scalar {value : Value} (scalar : value.isJsonScalar = true) : Built value
  | list {items : List Value} (each : ∀ item ∈ items, Built item.unwrapped) : Built (.list items)
  | tuple {items : List Value} (each : ∀ item ∈ items, Built item.unwrapped) : Built (.tuple items)
  | set {frozen : Bool} {items : List Value} (each : ∀ item ∈ items, Built item.unwrapped) :
    Built (.set frozen items)
  | map {entries : List (Value × Value)} (keys : ∀ entry ∈ entries, ∃ name, entry.1 = .text name)
    (each : ∀ entry ∈ entries, Built entry.2.unwrapped) : Built (.map entries)

/-- The values that stand in a container. -/
def parts : Value → List Value
  | .list items | .tuple items | .set _ items => items
  | .map entries => entries.map Prod.snd
  | _ => []

/-- A value holds another one in as many containers as the depth says, itself in none. -/
inductive HoldsAt : Value → Nat → Value → Prop
  | here (value : Value) : HoldsAt value 0 value
  | within {whole part inner : Value} {depth : Nat} (among : part ∈ whole.parts)
    (inside : HoldsAt part.unwrapped depth inner) : HoldsAt whole (depth + 1) inner

/-- Whether a value can be sorted where it is a set: its items are shown for that. -/
def isSortable : Value → Bool
  | .set _ items => canInspectAll items
  | _ => true

/-- What a value holds lies at an allowed depth, and can be sorted where it is a set. -/
def Allows (depth : Nat) (value : Value) : Prop :=
  ∀ lower inner, HoldsAt value lower inner →
    depth + lower ≤ maxJsonDepth ∧ inner.isSortable = true

/-- A value is built from scalars, and what it holds, itself included, may stand where it does. -/
structure Fits (depth : Nat) (value : Value) : Prop where
  built : Built value
  allowed : Allows depth value

section Fits

variable {depth : Nat} {value whole : Value}

/-- What fits at a depth lies at one that is allowed. -/
theorem Fits.depth_le (fits : Fits depth value) : depth ≤ maxJsonDepth :=
  (fits.allowed 0 value (.here value)).1

/-- What has no parts fits if it is built from scalars. -/
theorem fits_iff_of_alone (alone : value.parts = []) (allowed : depth ≤ maxJsonDepth) :
    Fits depth value ↔ Built value := by
  -- A value without parts holds only itself, and a set among them has nothing to sort.
  refine ⟨Fits.built, fun built => ⟨built, ?_⟩⟩
  have sortable : value.isSortable = true := by
    cases value with
    | set frozen items =>
      obtain rfl : items = [] := alone
      rfl
    | _ => rfl
  intro lower inner holds
  cases holds with
  | here => exact ⟨allowed, sortable⟩
  | within among =>
    rw [alone] at among
    exact nomatch among

/-- What a container holds may stand there if what its parts hold may, one level deeper. -/
theorem allows_iff_parts (allowed : depth ≤ maxJsonDepth) :
    Allows depth value ↔ value.isSortable = true ∧
      ∀ part ∈ value.parts, Allows (depth + 1) part.unwrapped := by
  -- What a value holds is itself, or is held by one of its parts a level further down.
  constructor
  · intro allows
    refine ⟨(allows 0 value (.here value)).2, fun part among lower inner inside => ?_⟩
    obtain ⟨shallow, sortable⟩ := allows _ _ (.within among inside)
    exact ⟨by omega, sortable⟩
  · rintro ⟨sortable, deeper⟩ lower inner holds
    cases holds with
    | here => exact ⟨allowed, sortable⟩
    | within among inside =>
      obtain ⟨shallow, sortable⟩ := deeper _ among _ _ inside
      exact ⟨by omega, sortable⟩

/-- A container whose parts have to be built from scalars fits if its parts do. -/
theorem fits_iff_parts {keys : Prop} (allowed : depth ≤ maxJsonDepth)
    (built : Built value ↔ keys ∧ ∀ part ∈ value.parts, Built part.unwrapped) :
    Fits depth value ↔ (keys ∧ value.isSortable = true) ∧
      ∀ part ∈ value.parts, Fits (depth + 1) part.unwrapped := by
  -- Both conditions go down to the parts, one with the value's keys and one with its order.
  constructor
  · rintro ⟨whole, allows⟩
    obtain ⟨keyed, each⟩ := built.mp whole
    obtain ⟨sortable, deeper⟩ := (allows_iff_parts allowed).mp allows
    exact ⟨⟨keyed, sortable⟩, fun part among => ⟨each part among, deeper part among⟩⟩
  · rintro ⟨⟨keyed, sortable⟩, each⟩
    exact ⟨built.mpr ⟨keyed, fun part among => (each part among).built⟩,
      (allows_iff_parts allowed).mpr ⟨sortable, fun part among => (each part among).allowed⟩⟩

end Fits

/-- Items have forms if each of them has one, at a depth that is allowed. -/
theorem exists_jsonItems {depth : Nat} {items : List Value} :
    (∃ forms, jsonItems depth items = .ok forms) ↔
      ∀ item ∈ items, depth ≤ maxJsonDepth ∧ ∃ form, jsonForm depth false item = .ok form := by
  -- By induction on the items: the list has a form where each item has one.
  induction items with
  | nil => exact ⟨fun _ => nofun, fun _ => ⟨[], rfl⟩⟩
  | cons item rest ih =>
    rw [List.forall_mem_cons, ← ih]
    constructor
    · rintro ⟨forms, made⟩
      obtain ⟨shallow, form, others, given, later, -⟩ := jsonItems_cons_iff.mp made
      exact ⟨⟨Nat.not_lt.mp shallow, form, given⟩, others, later⟩
    · rintro ⟨⟨shallow, form, given⟩, others, later⟩
      exact ⟨_, jsonItems_cons_iff.mpr ⟨Nat.not_lt.mpr shallow, form, others, given, later, rfl⟩⟩

/-- Entries have forms if the key of the first is a text, its value has one, and the others do. -/
theorem jsonEntries_cons_iff {depth : Nat} {key value : Value}
    {rest forms : List (Value × Value)} :
    jsonEntries depth ((key, value) :: rest) = .ok forms ↔
      ∃ name form others, key = .text name ∧ depth ≤ maxJsonDepth ∧
        jsonForm depth false value = .ok form ∧ jsonEntries depth rest = .ok others ∧
        forms = (.text name, form) :: others := by
  -- The key comes first, then the depth, then the value and the rest; anything else than a text for
  -- a key fails at once.
  constructor
  · intro made
    cases key with
    | text name =>
      rw [jsonEntries] at made
      split at made
      · cases made
      · rename_i shallow
        obtain ⟨form, given, made⟩ := ok_of_bind made
        obtain ⟨others, later, made⟩ := ok_of_bind made
        exact ⟨name, form, others, rfl, Nat.not_lt.mp shallow, given, later,
          (Except.ok.inj made).symm⟩
    | _ => simp [jsonEntries] at made
  · rintro ⟨name, form, others, rfl, shallow, given, later, rfl⟩
    rw [jsonEntries, if_neg (Nat.not_lt.mpr shallow), given, later]
    rfl

/-- Entries have forms if their keys are texts and each of their values has a form. -/
theorem exists_jsonEntries {depth : Nat} {entries : List (Value × Value)} :
    (∃ forms, jsonEntries depth entries = .ok forms) ↔
      ∀ entry ∈ entries, (∃ name, entry.1 = .text name) ∧ depth ≤ maxJsonDepth ∧
        ∃ form, jsonForm depth false entry.2 = .ok form := by
  -- By induction on the entries, as for the items of a list but for the key.
  induction entries with
  | nil => exact ⟨fun _ => nofun, fun _ => ⟨[], rfl⟩⟩
  | cons entry rest ih =>
    rw [List.forall_mem_cons, ← ih]
    constructor
    · rintro ⟨forms, made⟩
      obtain ⟨name, form, others, named, shallow, given, later, -⟩ := jsonEntries_cons_iff.mp made
      exact ⟨⟨⟨name, named⟩, shallow, form, given⟩, others, later⟩
    · rintro ⟨⟨⟨name, named⟩, shallow, form, given⟩, others, later⟩
      exact ⟨_, jsonEntries_cons_iff.mpr
        ⟨name, form, others, named, shallow, given, later, rfl⟩⟩

/-- A value has a form at every allowed depth just where it fits, in its enumeration or not. -/
def Converts (value : Value) : Prop :=
  ∀ (depth : Nat) (opened : Bool), depth ≤ maxJsonDepth →
    ((∃ form, jsonForm depth opened value = .ok form) ↔
      Fits depth (if opened then value else value.unwrapped))

section Converts

variable {value : Value}

/-- A value that converts has a form at an allowed depth just where it fits there. -/
theorem Converts.at_depth (converts : value.Converts) (depth : Nat) :
    (depth ≤ maxJsonDepth ∧ ∃ form, jsonForm depth false value = .ok form) ↔
      Fits depth value.unwrapped :=
  ⟨fun ⟨allowed, made⟩ => (converts depth false allowed).mp made,
    fun fits => ⟨fits.depth_le, (converts depth false fits.depth_le).mpr fits⟩⟩

/-- A scalar is in no enumeration, has no parts, and has a form. -/
theorem formed_of_scalar (scalar : value.isJsonScalar = true) :
    value.unwrapped = value ∧ value.parts = [] ∧
      ∀ depth opened, ∃ form, jsonForm depth opened value = .ok form := by
  -- Of the scalars only a float may lack a form, and this one has it.
  cases value with
  | null | bool | int | text | uuid | moment | date | time => exact ⟨rfl, rfl, fun _ _ => ⟨_, rfl⟩⟩
  | float => exact ⟨rfl, rfl, fun _ _ => ⟨_, if_pos scalar⟩⟩
  | _ => exact nomatch scalar

/-- A scalar converts. -/
theorem converts_of_scalar (scalar : value.isJsonScalar = true) : value.Converts := by
  -- A scalar is its own only part at no depth at all.
  obtain ⟨plain, alone, formed⟩ := formed_of_scalar scalar
  intro depth opened allowed
  rw [plain, ite_self, fits_iff_of_alone alone allowed]
  exact iff_of_true (formed depth opened) (.scalar scalar)

/-- A value that never has a form converts if it is not built from scalars. -/
theorem converts_of_unbuilt (plain : value.unwrapped = value) (unbuilt : ¬Built value)
    (refused : ∀ depth opened, ∃ fault, jsonForm depth opened value = .error fault) :
    value.Converts := by
  -- Neither side holds: the value is refused, and it is of no kind that can be built.
  intro depth opened allowed
  rw [plain, ite_self]
  obtain ⟨fault, refused⟩ := refused depth opened
  refine iff_of_false ?_ fun fits => unbuilt fits.built
  rintro ⟨form, made⟩
  exact nomatch refused.symm.trans made

/-- Items that convert have forms at an allowed depth just where they fit there. -/
theorem exists_jsonItems_iff_fits {items : List Value} (each : ∀ item ∈ items, item.Converts)
    (depth : Nat) : (∃ forms, jsonItems depth items = .ok forms) ↔
      ∀ item ∈ items, Fits depth item.unwrapped :=
  exists_jsonItems.trans (forall₂_congr fun item among => (each item among).at_depth depth)

/-- Entries whose values convert have forms just where their keys are texts and their values fit. -/
theorem exists_jsonEntries_iff_fits {entries : List (Value × Value)}
    (each : ∀ entry ∈ entries, entry.2.Converts) (depth : Nat) :
    (∃ forms, jsonEntries depth entries = .ok forms) ↔
      (∀ entry ∈ entries, ∃ name, entry.1 = .text name) ∧
        ∀ part ∈ entries.map Prod.snd, Fits depth part.unwrapped := by
  rw [exists_jsonEntries, List.forall_mem_map, ← forall₂_and]
  exact forall₂_congr fun entry among => and_congr_right fun _ => (each entry among).at_depth depth

/-- What is built from scalars has parts that are. -/
theorem Built.of_mem_parts (built : Built value) : ∀ part ∈ value.parts, Built part.unwrapped := by
  -- Each kind of value was built from its parts.
  cases built with
  | scalar scalar =>
    obtain ⟨-, alone, -⟩ := formed_of_scalar scalar
    rw [alone]
    exact nofun
  | list each | tuple each | set each => exact each
  | map _ each => exact List.forall_mem_map.mpr each

/-- A container of items converts if they do and it has a form where they do and are sorted. -/
theorem converts_of_items {items : List Value} (each : ∀ item ∈ items, item.Converts)
    (plain : value.unwrapped = value) (held : value.parts = items)
    (build : (∀ item ∈ items, Built item.unwrapped) → Built value)
    (formed : ∀ depth opened, (∃ form, jsonForm depth opened value = .ok form) ↔
      value.isSortable = true ∧ ∃ forms, jsonItems (depth + 1) items = .ok forms) :
    value.Converts := by
  -- Lists, tuples and sets differ only in how they are built and in whether they are sorted; both
  -- are left to the caller.
  intro depth opened allowed
  have built : Built value ↔ True ∧ ∀ part ∈ value.parts, Built part.unwrapped := by
    rw [true_and]
    exact ⟨Built.of_mem_parts, fun parts => build (held ▸ parts)⟩
  rw [plain, ite_self, fits_iff_parts allowed built, true_and, held,
    ← exists_jsonItems_iff_fits each, formed]

/-- A list or a tuple has a form where its items do. -/
theorem exists_jsonForm_items {form : Except FormatFault Value} {depth : Nat} {items : List Value}
    (sortable : value.isSortable = true)
    (listed : form = do return .list (← jsonItems (depth + 1) items)) :
    (∃ given, form = .ok given) ↔
      value.isSortable = true ∧ ∃ forms, jsonItems (depth + 1) items = .ok forms := by
  rw [listed, exists_ok_map Value.list, and_iff_right sortable]

/-- A set has a form where its items do and can be shown, for their forms are shown alike. -/
theorem exists_jsonForm_set (depth : Nat) (opened frozen : Bool) (items : List Value) :
    (∃ form, jsonForm depth opened (.set frozen items) = .ok form) ↔
      (set frozen items).isSortable = true ∧ ∃ forms, jsonItems (depth + 1) items = .ok forms := by
  -- A set is sorted by its items' forms, and a form can be shown exactly where its item can.
  constructor
  · rintro ⟨form, made⟩
    obtain ⟨forms, given, made⟩ := ok_of_bind made
    obtain ⟨_, passes, -⟩ := ok_of_bind made
    rw [checkSortable_set] at passes
    split at passes
    · rename_i shown
      refine ⟨?_, forms, given⟩
      exact (canInspectAll_of_forms items _ given).symm.trans
        (canInspectAll_iff.mpr (List.all_eq_true.mp shown))
    · exact nomatch passes
  · rintro ⟨shown, forms, given⟩
    refine ⟨.list (sorted forms), bind_ok given ?_⟩
    rw [checkSortable_of_shown ((canInspectAll_of_forms items _ given).trans shown)]
    rfl

/-- A map converts if the values of its entries do. -/
theorem converts_map {entries : List (Value × Value)}
    (each : ∀ entry ∈ entries, entry.2.Converts) : (map entries).Converts := by
  -- A map asks more than a list in one point: its keys are texts.
  intro depth opened allowed
  have built : Built (map entries) ↔ (∀ entry ∈ entries, ∃ name, entry.1 = .text name) ∧
      ∀ part ∈ (map entries).parts, Built part.unwrapped := by
    constructor
    · intro built
      refine ⟨?_, built.of_mem_parts⟩
      cases built with
      | scalar scalar => exact nomatch scalar
      | map keys => exact keys
    · rintro ⟨keys, each⟩
      exact .map keys fun entry member => each entry.2 (List.mem_map_of_mem member)
  have plain : (map entries).unwrapped = map entries := rfl
  have sortable : (map entries).isSortable = true := rfl
  rw [plain, ite_self, fits_iff_parts allowed built, and_iff_left sortable, parts,
    ← exists_jsonEntries_iff_fits each]
  exact exists_ok_map Value.map

end Converts

-- By induction on the value: a container is as good as its parts, and a member of an enumeration
-- as its value, once it has been opened.
mutual

/-- Every value converts. -/
theorem converts (value : Value) : value.Converts := by
  -- One case for each kind of value; only those that hold others go by what they hold.
  cases value with
  | null | bool | int | text | uuid | moment | date | time => exact converts_of_scalar rfl
  | float number =>
    cases finite : number.isFinite with
    | true => exact converts_of_scalar finite
    | false =>
      refine converts_of_unbuilt rfl ?_ fun depth opened => ⟨_, if_neg (by rw [finite]; nofun)⟩
      rintro (scalar | _)
      exact absurd (finite.symm.trans scalar) nofun
  | list items =>
    exact converts_of_items (convert_items items) rfl rfl .list fun _ _ =>
      exists_jsonForm_items rfl rfl
  | tuple items =>
    exact converts_of_items (convert_items items) rfl rfl .tuple fun _ _ =>
      exists_jsonForm_items rfl rfl
  | set frozen items =>
    exact converts_of_items (convert_items items) rfl rfl .set fun depth opened =>
      exists_jsonForm_set depth opened frozen items
  | map entries => exact converts_map (convert_entries entries)
  | operator value =>
    -- Inside another enumeration it has no form and is not built, and else it is its symbol.
    intro depth opened allowed
    cases opened with
    | true => exact iff_of_false nofun fun fits => nomatch fits.built
    | false =>
      have converts : (text value.symbol).Converts := converts_of_scalar rfl
      exact converts depth false allowed
  | member value =>
    intro depth opened allowed
    cases opened with
    | true => exact iff_of_false nofun fun fits => nomatch fits.built
    | false => exact converts value depth true allowed
  | bytes | foreign | node | sortKey | projection =>
    exact converts_of_unbuilt rfl nofun fun _ _ => ⟨_, rfl⟩
termination_by structural value

/-- All items convert. -/
theorem convert_items (items : List Value) : ∀ item ∈ items, item.Converts := by
  match items with
  | [] => exact nofun
  | item :: rest => exact List.forall_mem_cons.mpr ⟨converts item, convert_items rest⟩
termination_by structural items

/-- The values of all entries convert. -/
theorem convert_entries (entries : List (Value × Value)) : ∀ entry ∈ entries, entry.2.Converts := by
  match entries with
  | [] => exact nofun
  | (key, value) :: rest => exact List.forall_mem_cons.mpr ⟨converts value, convert_entries rest⟩
termination_by structural entries

end

/-- A value in JSON form is in no enumeration. -/
theorem unwrapped_of_isJson {value : Value} (json : value.isJson = true) :
    value.unwrapped = value := by
  cases value with
  | operator | member => exact nomatch json
  | _ => rfl

/-- The values of a map that is a form are forms. -/
theorem toJson_of_mem_entries {entries : List (Value × Value)} {depth : Nat}
    (own : jsonEntries depth entries = .ok entries) :
    ∀ entry ∈ entries, jsonForm depth false entry.2 = .ok entry.2 := by
  -- By induction on the entries, each of which was given back as it was.
  induction entries with
  | nil => exact nofun
  | cons entry rest ih =>
    obtain ⟨name, form, others, -, -, given, later, same⟩ := jsonEntries_cons_iff.mp own
    obtain ⟨rfl, rfl⟩ := List.cons.inj same
    exact List.forall_mem_cons.mpr ⟨given, ih later⟩

/-- The parts of a form are forms. -/
theorem toJson_of_mem_parts {form part : Value} (own : form.toJson = .ok form)
    (among : part ∈ form.parts) : part.toJson = .ok part := by
  -- A form holds lists and maps only, and it is its own form all the way down.
  have json : form.isJson = true := isJson_of_jsonForm form 0 false own
  cases form with
  | list items => exact toJson_of_mem own among
  | map entries =>
    obtain ⟨forms, given, same⟩ := ok_of_bind own
    cases same
    obtain ⟨entry, member, rfl⟩ := List.mem_map.mp among
    exact jsonForm_of_deeper entry.2 0 false (toJson_of_mem_entries given entry member)
  | tuple | set => exact nomatch json
  | _ => exact nomatch among

/-- What a form holds, at whatever depth, is a form. -/
theorem HoldsAt.toJson {form inner : Value} {depth : Nat} (holds : form.HoldsAt depth inner)
    (own : form.toJson = .ok form) : inner.toJson = .ok inner := by
  induction holds with
  | here => exact own
  | within among _ ih =>
    -- A form holds no enumeration, so that its part is what the rest is held in.
    have part := toJson_of_mem_parts own among
    rw [unwrapped_of_isJson (isJson_of_jsonForm _ 0 false part)] at ih
    exact ih part

/--
JSON conversion leads to a normal form.

Exactly values have a form that are built from scalars, hold nothing too deep, and hold no set with
an integer that is too long to be written; a literal fails for such an integer only if it holds one.
The form is in JSON form, is its own form, and so is every item of every list that it holds.
-/
theorem toJson_normalizes (value : Value) :
    ((∃ form, value.toJson = .ok form) ↔ value.unwrapped.Built ∧
      ∀ depth inner, value.unwrapped.HoldsAt depth inner →
        depth ≤ maxJsonDepth ∧ inner.isSortable = true) ∧
    (value.toJson = .error .unwritable → value.canInspect = false) ∧
    ∀ form, value.toJson = .ok form → form.isJson = true ∧ form.toJson = .ok form ∧
      ∀ depth items, form.HoldsAt depth (.list items) → ∀ item ∈ items, item.toJson = .ok item := by
  -- A value has a form exactly where it is built of what fits and no set is in the way; a form is
  -- made of lists and maps, each its own form.
  refine ⟨?_, fun failed => ?_, ?_⟩
  · have converts := value.converts 0 false (Nat.zero_le _)
    constructor
    · intro formed
      have fits := converts.mp formed
      exact ⟨fits.built, fun depth inner holds =>
        Nat.zero_add depth ▸ fits.allowed depth inner holds⟩
    · rintro ⟨built, allowed⟩
      exact converts.mpr ⟨built, fun depth inner holds =>
        (Nat.zero_add depth).symm ▸ allowed depth inner holds⟩
  -- Only an order by what is shown can fail this way.
  · exact Bool.eq_false_iff.mpr fun shown => not_unwritable_jsonForm value 0 false shown failed
  · intro form made
    have own := toJson_of_form made
    exact ⟨isJson_of_jsonForm value 0 false made, own, fun depth items holds item member =>
      toJson_of_mem (holds.toJson own) member⟩

/-- A tuple with a member of an enumeration becomes a list, which then stays as it is. -/
theorem toJson_normalizes_member :
    (map [(.text "tags", .tuple [.member (.int 1), .operator .equal])]).toJson =
        .ok (map [(.text "tags", .list [.int 1, .text "=="])]) ∧
      (map [(.text "tags", .list [.int 1, .text "=="])]).toJson =
        .ok (map [(.text "tags", .list [.int 1, .text "=="])]) := by
  have made : (map [(.text "tags", .tuple [.member (.int 1), .operator .equal])]).toJson =
      .ok (map [(.text "tags", .list [.int 1, .text "=="])]) := rfl
  exact ⟨made, ((toJson_normalizes _).2.2 _ made).2.1⟩

/-- An integer that a list may hold fails a set, although nothing in it is wrong or too deep. -/
theorem toJson_unwritable_set :
    (list [.int tooLong]).toJson = .ok (list [.int tooLong]) ∧
      (set false [.int tooLong]).Built ∧
      (∀ depth inner, (set false [.int tooLong]).HoldsAt depth inner → depth ≤ maxJsonDepth) ∧
      (set false [.int tooLong]).toJson = .error .unwritable := by
  -- The same integer in a list is written without being shown; in a set it would be shown to be
  -- sorted.
  refine ⟨rfl, .set ?_, fun depth inner holds => ?_, ?_⟩
  · intro item among
    obtain rfl := List.mem_singleton.mp among
    exact .scalar rfl
  · -- The integer lies one level down, and nothing lies below it.
    cases holds with
    | here => exact Nat.zero_le _
    | within among inside =>
      obtain rfl := List.mem_singleton.mp among
      cases inside with
      | here => decide
      | within among => exact nomatch among
  · show (do checkSortable (.set false [.int tooLong]); return list _) = _
    have hidden : (int tooLong).canInspect = false := not_isWritable_tooLong
    rw [checkSortable_set, List.all_cons, hidden]
    rfl

end ContentQuery.Value
