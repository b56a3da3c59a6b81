import ContentQuery.Proofs.Contentful.Direction

/-! Leaves, alternatives on one field, and negations, each with the directions it may err in. -/

namespace ContentQuery.Contentful

open Compile (Ensures)

/-- An entry asks for what its one parameter asks for. -/
theorem mapHolds_entry (reading : Reading) {entry : String × Parameter}
    (named : entry.1 ≠ "content_type") :
    MapHolds reading ⟨[entry]⟩ ↔ reading.Holds entry.1 entry.2.sent := by
  simp [MapHolds, named]

/-- What a leaf gives: exact entries, or nothing and a notice. -/
def Kept (map : FilterMap) (notices : List Notice) : Prop :=
  Exact map ∧ (map.entries = [] → Lost notices)

/-- Nothing is kept, with a notice. -/
theorem Kept.lost {notices : List Notice} (noted : Lost notices) : Kept .empty notices :=
  ⟨exact_empty, fun _ => noted⟩

/-- One exact entry is kept. -/
theorem Kept.single {entry : String × Parameter} (exact_ : entry.2.IsExact) :
    Kept ⟨[entry]⟩ [] :=
  ⟨List.forall_mem_singleton.mpr exact_, fun none_ => (nomatch none_)⟩

/-- A reference comparison gives an exact entry, or nothing and a notice. -/
theorem ensures_reference {field value : Value} (plain : isPlain value = true) :
    (convertReference field value).Ensures Kept := by
  refine .bind (ensures_parameter field .references value) fun parameter notices given => ?_
  rcases given with ⟨rfl, noted⟩ | ⟨parameter, rfl, given, rfl⟩
  · exact .pure (.lost (by rwa [List.append_nil]))
  · have exact_ := Parameter.exact_ofValue plain given
    dsimp only
    -- Without a field, a reference has to name one entry and no list of them.
    split
    · split
      · exact ensures_dropped (by decide) fun _ => .lost
      · exact .pure (.single exact_)
    · refine .bind (ensures_path field _) fun path notices named => ?_
      rcases named with ⟨rfl, noted⟩ | ⟨path, rfl, -, -, rfl⟩
      · exact .pure (.lost (by simpa using noted))
      · exact .pure (.single exact_)

/-- A leaf gives an exact entry, or nothing and a notice. -/
theorem ensures_convertLeaf (field : Value) (comparison : Comparison) {value : Value}
    (plain : isPlain value = true) : (convertLeaf field comparison value).Ensures Kept := by
  -- References have their own form, and an operator without a suffix is told of.
  have unsupported : (convertLeaf.unsupported field comparison).Ensures Kept :=
    ensures_dropped (by decide) fun _ => .lost
  unfold convertLeaf
  split
  · exact ensures_reference plain
  · split
    · exact ensures_comparison (fun _ => .lost) fun _ _ _ _ made =>
        .single (exact_entryOf plain made)
    · exact unsupported
  · exact unsupported

/-- A leaf by itself asks for its own entry, so that it errs in no direction. -/
theorem ensures_alone (field : Value) (comparison : Comparison) {value : Value}
    (plain : isPlain value = true) :
    (convertLeaf field comparison value).Ensures
      (Directed fun reading => AloneHolds reading field comparison value) := by
  rcases ensures_convertLeaf field comparison plain with refused | ⟨map, notices, gives, kept⟩
  · exact Or.inl refused
  · refine Or.inr ⟨map, notices, gives, ?_⟩
    obtain ⟨exact_, noted⟩ := kept
    -- Where nothing is kept there is a notice, and else the meaning is the map itself.
    by_cases none_ : map.entries = []
    · obtain rfl : map = .empty := congrArg OrderedMap.mk none_
      exact .lost (noted none_)
    · have same (reading : Reading) :
          MapHolds reading map ↔ AloneHolds reading field comparison value := by
        simp only [AloneHolds, gives .empty, if_neg none_]
      exact ⟨exact_, fun _ reading => (same reading).mpr, fun _ reading => (same reading).mp⟩

/-- A leaf errs in no direction; to be in a list is to equal one of its items. -/
theorem ensures_leaf (field : Value) (comparison : Comparison) {value : Value}
    (plain : isPlain value = true) :
    (convertLeaf field comparison value).Ensures
      (Directed fun reading => LeafHolds reading field comparison value) := by
  unfold LeafHolds
  -- Membership in a list is the one leaf that means more than its own entry.
  split
  · rename_i items
    refine ensures_comparison (fun _ => .lost) fun path entry same valid made => ?_
    subst same
    refine .of_iff (List.forall_mem_singleton.mpr (exact_entryOf plain made)) fun reading => ?_
    rw [mapHolds_entry reading (entryOf_ne made)]
    obtain ⟨parameter, given, rfl⟩ := exists_of_map made
    exact holds_ofItems reading valid given
  · exact ensures_alone field comparison plain

section Allowed

/-- Among plain literals, only a literal itself equals one that can be an item of a parameter. -/
theorem eq_of_same {value known : Value} {part : String} (plain : isPlain value = true)
    (plain' : isPlain known = true) (sendable : Parameter.item known = .ok part)
    (equal : (value == known) = true) : value = known := by
  -- Null and lists cannot be items, and fractions and truth values are not plain.
  cases known with
  | text words => exact Value.eq_text_of_same equal
  | int number =>
    cases value <;>
      simp_all [isPlain, BEq.beq, Value.same, Value.sameAtom, Value.sameNumber?]
  | null | list _ => cases sendable
  | bool _ | float _ | bytes _ | uuid _ | moment _ | date _ | time _ | tuple _ | set _ _ | map _
  | operator _ | member _ | foreign | node _ _ _ _ _ _ | sortKey _ | projection _ => cases plain'

variable {values items : List Value}

/-- Adding values keeps those that are there. -/
theorem mem_addNew_left {known : Value} (member : known ∈ values) :
    known ∈ addNew values items := by
  unfold addNew
  -- The known values grow at their end, so that they are general in the induction.
  induction items generalizing values with
  | nil => exact member
  | cons item rest ih =>
    rw [List.foldl_cons]
    refine ih ?_
    split
    · exact member
    · exact List.mem_append_left _ member

/-- Each of the values is added, or one that equals it is there. -/
theorem covered_addNew (values : List Value) {item : Value} (member : item ∈ items) :
    ∃ known ∈ addNew values items, item = known ∨ (item == known) = true := by
  -- By induction on the items, of which each is known, or is added and known from then on.
  unfold addNew
  induction items generalizing values with
  | nil => exact nomatch member
  | cons first rest ih =>
    rw [List.foldl_cons]
    rcases List.mem_cons.mp member with rfl | member
    · -- A value that is known already has its equal among the known ones.
      split
      · rename_i there
        obtain ⟨known, inside, equal⟩ := List.contains_iff_exists_mem_beq.mp there
        exact ⟨known, mem_addNew_left inside, Or.inr equal⟩
      · exact ⟨item, mem_addNew_left (by simp), Or.inl rfl⟩
    · exact ih _ member

/-- Only the given values are added. -/
theorem of_mem_addNew {known : Value} (member : known ∈ addNew values items) :
    known ∈ values ∨ known ∈ items := by
  -- By induction on the items: what is added is one of them.
  unfold addNew at member
  induction items generalizing values with
  | nil => exact Or.inl member
  | cons first rest ih =>
    rw [List.foldl_cons] at member
    rcases ih member with inside | inside
    · split at inside
      · exact Or.inl inside
      · rcases List.mem_append.mp inside with inside | inside
        · exact Or.inl inside
        · exact Or.inr (by simpa using Or.inl (List.mem_singleton.mp inside))
    · exact Or.inr (List.mem_cons_of_mem _ inside)

/--
What branches allow together: every branch allows some values, each of which is there or has an
equal one there, and nothing else is there.
-/
theorem allowed_of_foldlM {field : Value} {branches : List Condition} {known values : List Value}
    (together : branches.foldlM
      (fun values branch => (allowedValues? field branch).map (addNew values)) known =
        some values) :
    (∀ value ∈ known, value ∈ values) ∧
      (∀ branch ∈ branches, ∃ items, allowedValues? field branch = some items ∧
        ∀ item ∈ items, ∃ value ∈ values, item = value ∨ (item == value) = true) ∧
      ∀ value ∈ values, value ∈ known ∨
        ∃ branch ∈ branches, ∃ items, allowedValues? field branch = some items ∧ value ∈ items := by
  -- The values known before a branch are general, for each branch adds to them.
  induction branches generalizing known with
  | nil =>
    cases together
    simp
  | cons branch rest ih =>
    rw [List.foldlM_cons] at together
    cases allowed : allowedValues? field branch with
    | none =>
      rw [allowed] at together
      exact nomatch together
    | some items =>
      rw [allowed] at together
      change rest.foldlM _ (addNew known items) = some values at together
      obtain ⟨kept, each, back⟩ := ih together
      refine ⟨fun value member => kept value (mem_addNew_left member), ?_, fun value member => ?_⟩
      · refine List.forall_mem_cons.mpr ⟨⟨items, allowed, fun item member => ?_⟩, each⟩
        obtain ⟨value, inside, equal⟩ := covered_addNew known member
        exact ⟨value, kept value inside, equal⟩
      · rcases back value member with inside | ⟨other, inside, found⟩
        · rcases of_mem_addNew inside with there | added
          · exact Or.inl there
          · exact Or.inr ⟨branch, List.mem_cons_self, items, allowed, added⟩
        · exact Or.inr ⟨other, List.mem_cons_of_mem _ inside, found⟩

/-- A branch that allows values of a field asks for an equality with one of them. -/
theorem holds_allowed {path : String} {branch : Condition} {items : List Value}
    (plain : hasPlain branch = true)
    (allowed : allowedValues? (.text path) branch = some items) :
    (∀ item ∈ items, isPlain item = true) ∧ ∀ reading, Holds reading branch ↔
      ∃ item ∈ items, AloneHolds reading (.text path) (.known .equal) item := by
  unfold allowedValues? at allowed
  -- A branch allows values only as an equality or as a membership in a list.
  split at allowed
  · rename_i other operator value
    split at allowed
    · exact nomatch allowed
    · rename_i same
      obtain rfl : other = .text path := Value.eq_text_of_same (by simpa using same : _ ∧ _).2
      split at allowed
      · exact nomatch allowed
      · cases allowed
        exact ⟨by simpa [hasPlain] using plain, fun reading => by simp [Holds, LeafHolds]⟩
      · cases allowed
        exact ⟨by simpa [hasPlain, isPlain] using plain, fun reading => Iff.rfl⟩
      · exact nomatch plain
      · exact nomatch allowed
  · exact nomatch allowed

/-- Where the values can be sent, branches ask for one of the values that they allow together. -/
theorem anyHolds_allowed {path : String} {branches : List Condition} {parameter : Parameter}
    (plain : ∀ branch ∈ branches, hasPlain branch = true)
    (together : allowedTogether? (.text path) branches = some values)
    (made : Parameter.ofItems values = .ok parameter) (reading : Reading) :
    AnyHolds reading branches ↔
      ∃ value ∈ values, AloneHolds reading (.text path) (.known .equal) value := by
  obtain ⟨-, each, back⟩ := allowed_of_foldlM together
  rw [anyHolds_iff]
  constructor
  · rintro ⟨branch, inside, true_⟩
    obtain ⟨items, allowed, covered⟩ := each branch inside
    obtain ⟨plainItems, meant⟩ := holds_allowed (plain branch inside) allowed
    obtain ⟨item, listed, true_⟩ := (meant reading).mp true_
    obtain ⟨value, member, equal⟩ := covered item listed
    -- The value that stands for the item is plain and can be sent, so that it is the item itself.
    have plainValue : isPlain value = true := by
      rcases back value member with none_ | ⟨branch, inside, items, allowed, listed⟩
      · exact nomatch none_
      · exact (holds_allowed (plain branch inside) allowed).1 value listed
    obtain ⟨parts, given, -⟩ := Parameter.parts_of_ofItems made
    obtain ⟨part, -, sendable⟩ := (mem_of_mapM given).1 value member
    have same : item = value :=
      equal.elim id (eq_of_same (plainItems item listed) plainValue sendable)
    exact ⟨value, member, same ▸ true_⟩
  · rintro ⟨value, member, true_⟩
    rcases back value member with none_ | ⟨branch, inside, items, allowed, listed⟩
    · exact nomatch none_
    · exact ⟨branch, inside,
        ((holds_allowed (plain branch inside) allowed).2 reading).mpr ⟨value, listed, true_⟩⟩

/-- Alternatives on one field are converted to what they ask for, or dropped with a notice. -/
theorem ensures_membership {field : Value} {branches : List Condition}
    (plain : ∀ branch ∈ branches, hasPlain branch = true)
    (together : allowedTogether? field branches = some values) :
    (convertMembership field values).Ensures
      (Directed fun reading => AnyHolds reading branches) := by
  -- What is sent are the forms of the values, and a form stands for every value of the same form.
  refine .bind (ensures_path field _) fun path notices named => ?_
  rcases named with ⟨rfl, noted⟩ | ⟨path, rfl, rfl, valid, rfl⟩
  · exact .pure (.lost (by rwa [List.append_nil]))
  · dsimp only
    split
    · rename_i parameter made
      have exact_ : Exact (single (fieldKey path ++ "[in]") parameter) :=
        List.forall_mem_singleton.mpr (Parameter.exact_ofItems made)
      refine .pure (.of_iff exact_ fun reading => ?_)
      rw [anyHolds_allowed plain together made reading]
      exact (mapHolds_entry reading (fieldKey_ne path "[in]")).trans
        (holds_ofItems reading valid made)
    · exact .written (ensures_dropped (by decide) fun _ => .lost)

end Allowed

end ContentQuery.Contentful
