import ContentQuery.OrderedMap
import ContentQuery.Value.Equality

/-! Ordered maps: what an assignment and a union do to one key, and what they leave alone. -/

namespace ContentQuery

namespace OrderedMap

variable {κ ν : Type} [BEq κ]

/-- A key that equals itself and no other key, although other keys may equal each other. -/
structure IsDiscrete (key : κ) : Prop where
  left : ∀ other, (other == key) = true ↔ other = key
  right : ∀ other, (key == other) = true ↔ other = key

/-- Where equality is that of the language, every key is discrete. -/
theorem isDiscrete [LawfulBEq κ] (key : κ) : IsDiscrete key :=
  ⟨fun _ => beq_iff_eq, fun _ => beq_iff_eq.trans eq_comm⟩

@[simp] theorem get?_empty (key : κ) : (empty : OrderedMap κ ν).get? key = none :=
  rfl

/-- A map contains the keys that it has a value for. -/
theorem contains_eq_isSome (map : OrderedMap κ ν) (key : κ) :
    map.contains key = (map.get? key).isSome := by
  rw [contains, get?, Option.isSome_map, Bool.eq_iff_iff, List.find?_isSome, List.any_eq_true]

/-- A map does not contain the keys that it has no value for. -/
theorem contains_eq_false {map : OrderedMap κ ν} {key : κ} :
    map.contains key = false ↔ map.get? key = none := by
  rw [contains_eq_isSome, Option.isSome_eq_false_iff, Option.isNone_iff_eq_none]

section Discrete

variable {key : κ} (discrete : IsDiscrete key)
include discrete

/-- An assigned key has the assigned value. -/
theorem get?_insert_self (map : OrderedMap κ ν) (value : ν) :
    (map.insert key value).get? key = some value := by
  obtain ⟨entries⟩ := map
  have equal : (key == key) = true := (discrete.left key).mpr rfl
  -- The value is found where the key stood, or at the end.
  induction entries with
  | nil => simp [get?, insert, assign, equal]
  | cons entry rest ih =>
    by_cases same : (entry.1 == key) = true
    · simp [get?, insert, assign, same]
    · simpa [get?, insert, assign, same] using ih

/-- An assignment leaves the values of other keys alone. -/
theorem get?_insert_of_ne (map : OrderedMap κ ν) {other : κ} (ne : other ≠ key) (value : ν) :
    (map.insert other value).get? key = map.get? key := by
  -- By induction on the entries: what is assigned stands where the other key was, or at the end.
  obtain ⟨entries⟩ := map
  have unequal : (other == key) = false := by
    simpa using mt (discrete.left other).mp ne
  induction entries with
  | nil => simp [get?, insert, assign, unequal]
  | cons entry rest ih =>
    by_cases replaced : (entry.1 == other) = true
    · -- What is replaced is no entry of the key, since that equals no other key.
      have apart : (entry.1 == key) = false := by
        refine Bool.eq_false_iff.mpr fun same => ne ?_
        rw [(discrete.left entry.1).mp same] at replaced
        exact (discrete.right other).mp replaced
      simp [get?, insert, assign, replaced, apart]
    · by_cases same : (entry.1 == key) = true
      · simp [get?, insert, assign, replaced, same]
      · simpa [get?, insert, assign, replaced, same] using ih

/-- A union has the values of the second map, and those of the first for the other keys. -/
theorem get?_union (map other : OrderedMap κ ν) :
    (map.union other).get? key = ((empty.union other).get? key).or (map.get? key) := by
  obtain ⟨entries⟩ := other
  -- The map that is assigned to grows, so that both starts are general in the induction.
  suffices general : ∀ start : OrderedMap κ ν, (start.union ⟨entries⟩).get? key =
      ((empty.union ⟨entries⟩).get? key).or (start.get? key) from general map
  induction entries with
  | nil => exact fun start => rfl
  | cons entry rest ih =>
    intro start
    show ((start.insert entry.1 entry.2).union ⟨rest⟩).get? key =
      (((empty.insert entry.1 entry.2).union ⟨rest⟩).get? key).or (start.get? key)
    rw [ih (start.insert entry.1 entry.2), ih (empty.insert entry.1 entry.2), Option.or_assoc]
    by_cases same : entry.1 = key
    · subst same
      rw [get?_insert_self discrete, get?_insert_self discrete, Option.some_or]
    · rw [get?_insert_of_ne discrete _ same, get?_insert_of_ne discrete _ same, get?_empty,
        Option.none_or]

/-- A union leaves a key alone that the second map does not contain. -/
theorem get?_union_of_not_contains (map : OrderedMap κ ν) {other : OrderedMap κ ν}
    (absent : other.contains key = false) : (map.union other).get? key = map.get? key := by
  -- By induction on the second map, none of whose keys is the one looked for.
  obtain ⟨entries⟩ := other
  induction entries generalizing map with
  | nil => rfl
  | cons entry rest ih =>
    obtain ⟨unequal, others⟩ : (entry.1 == key) = false ∧ contains ⟨rest⟩ key = false := by
      simpa [contains] using absent
    have ne : entry.1 ≠ key := fun same => by
      rw [(discrete.left entry.1).mpr same] at unequal
      exact nomatch unequal
    show ((map.insert entry.1 entry.2).union ⟨rest⟩).get? key = _
    rw [ih _ others, get?_insert_of_ne discrete _ ne]

end Discrete

/-- Unions with the parts of a list of entries are a union with the whole list. -/
theorem union_append (map : OrderedMap κ ν) (first second : List (κ × ν)) :
    map.union ⟨first ++ second⟩ = (map.union ⟨first⟩).union ⟨second⟩ :=
  List.foldl_append

/-- A key that is not there yet is assigned at the end. -/
theorem insert_of_not_contains {map : OrderedMap κ ν} {key : κ}
    (absent : map.contains key = false) (value : ν) :
    map.insert key value = ⟨map.entries ++ [(key, value)]⟩ := by
  -- By induction on the entries, none of which is replaced.
  obtain ⟨entries⟩ := map
  induction entries with
  | nil => rfl
  | cons entry rest ih =>
    obtain ⟨unequal, others⟩ : (entry.1 == key) = false ∧ contains ⟨rest⟩ key = false := by
      simpa [contains] using absent
    have assigned : assign key value rest = rest ++ [(key, value)] :=
      congrArg entries (ih others)
    simp [insert, assign, unequal, assigned]

/-- A key that no two entries of a map have. -/
def Unique (key : κ) (map : OrderedMap κ ν) : Prop :=
  map.entries.Pairwise fun first second => first.1 = key → second.1 ≠ key

section Unique

variable {key : κ} (discrete : IsDiscrete key)
include discrete

/-- A key that is not there yet can be assigned without any key appearing twice. -/
theorem Unique.insert {map : OrderedMap κ ν} (unique : map.Unique key) {other : κ} {value : ν}
    (absent : map.contains other = false) : (map.insert other value).Unique key := by
  rw [insert_of_not_contains absent]
  refine List.pairwise_append.mpr ⟨unique, List.pairwise_singleton _ _, ?_⟩
  intro entry member last alone here same
  obtain rfl := List.mem_singleton.mp alone
  obtain rfl : other = key := same
  -- The assigned key would be the key of an entry that is there.
  have there : map.contains other = true :=
    List.any_eq_true.mpr ⟨entry, member, (discrete.left entry.1).mpr here⟩
  rw [absent] at there
  exact nomatch there

/-- Assigning the entries of a map in turn gives a key its value where it appears once. -/
theorem get?_union_empty {map : OrderedMap κ ν} (unique : map.Unique key) :
    (empty.union map).get? key = map.get? key := by
  obtain ⟨entries⟩ := map
  induction entries with
  | nil => rfl
  | cons entry rest ih =>
    obtain ⟨first, others⟩ := List.pairwise_cons.mp unique
    show ((empty.insert entry.1 entry.2).union ⟨rest⟩).get? key = _
    rw [get?_union discrete, ih others]
    by_cases same : entry.1 = key
    · subst same
      -- None of the other entries has the key, so that nothing takes the value away.
      have absent : (⟨rest⟩ : OrderedMap κ ν).get? entry.1 = none := by
        refine contains_eq_false.mp (List.any_eq_false.mpr fun other member equal => ?_)
        exact first other member rfl ((discrete.left other.1).mp equal)
      rw [absent, get?_insert_self discrete, Option.none_or]
      simp [get?, (discrete.left entry.1).mpr rfl]
    · have unequal : (entry.1 == key) = false := by
        simpa using mt (discrete.left entry.1).mp same
      rw [get?_insert_of_ne discrete _ same, get?_empty, Option.or_none]
      simp [get?, unequal]

end Unique

/-- A map in which no key equals an earlier one. -/
def Distinct (map : OrderedMap κ ν) : Prop :=
  map.entries.Pairwise fun first second => (first.1 == second.1) = false

/-- A key that is not there yet can be assigned without equalling another. -/
theorem Distinct.insert {map : OrderedMap κ ν} (distinct : map.Distinct) {key : κ} {value : ν}
    (absent : map.contains key = false) : (map.insert key value).Distinct := by
  -- The new key stands at the end, apart from all that were there.
  rw [insert_of_not_contains absent]
  refine List.pairwise_append.mpr ⟨distinct, List.pairwise_singleton _ _, ?_⟩
  intro entry member last alone
  obtain rfl := List.mem_singleton.mp alone
  simpa using List.any_eq_false.mp absent entry member

/-- A union with a map of keys that are not there yet puts its entries behind the others. -/
theorem entries_union {map other : OrderedMap κ ν} (distinct : other.Distinct)
    (fresh : ∀ entry ∈ other.entries, map.contains entry.1 = false) :
    (map.union other).entries = map.entries ++ other.entries := by
  -- By induction on the second map, whose entries are put at the end one by one.
  obtain ⟨entries⟩ := other
  induction entries generalizing map with
  | nil => exact (List.append_nil _).symm
  | cons entry rest ih =>
    obtain ⟨apart, later⟩ := List.pairwise_cons.mp distinct
    obtain ⟨absent, others⟩ := List.forall_mem_cons.mp fresh
    show ((map.insert entry.1 entry.2).union ⟨rest⟩).entries = _
    rw [insert_of_not_contains absent, ih later]
    · simp
    · -- The assigned key is new among those behind it as well.
      intro next member
      have unequal := others next member
      have other := apart next member
      simp only [contains, List.any_append, List.any_cons, List.any_nil, Bool.or_false,
        Bool.or_eq_false_iff] at unequal ⊢
      exact ⟨unequal, other⟩

/-- Assigned to the map without entries, a map with distinct keys is the same map. -/
theorem empty_union {map : OrderedMap κ ν} (distinct : map.Distinct) : empty.union map = map :=
  congrArg mk (entries_union distinct fun _ _ => rfl)

section Lawful

variable [LawfulBEq κ] {key : κ} {value : ν} {entry : κ × ν}

/-- An assigned entry is there. -/
theorem assigned_mem (key : κ) (value : ν) (entries : List (κ × ν)) :
    (key, value) ∈ assign key value entries := by
  -- By induction on the entries: the first of the key is replaced, or the entry is put at the end.
  induction entries with
  | nil => simp [assign]
  | cons first rest ih =>
    unfold assign
    split
    · rename_i equal
      rw [eq_of_beq equal]
      exact List.mem_cons_self
    · exact List.mem_cons_of_mem _ ih

/-- Every entry after an assignment is the assigned one or was there before. -/
theorem mem_of_assign {entries : List (κ × ν)} (member : entry ∈ assign key value entries) :
    entry = (key, value) ∨ entry ∈ entries := by
  -- The entry under the key is replaced where it stands, or the new one is put last.
  induction entries with
  | nil => exact Or.inl (List.mem_singleton.mp member)
  | cons first rest ih =>
    unfold assign at member
    split at member
    · rename_i equal
      rcases List.mem_cons.mp member with rfl | member
      · exact Or.inl (by rw [eq_of_beq equal])
      · exact Or.inr (List.mem_cons_of_mem _ member)
    · rcases List.mem_cons.mp member with rfl | member
      · exact Or.inr List.mem_cons_self
      · exact (ih member).imp_right (List.mem_cons_of_mem _)

/-- An assignment keeps every entry but the first under its key. -/
theorem mem_assign (key : κ) (value : ν) {entries : List (κ × ν)} (member : entry ∈ entries) :
    entry ∈ assign key value entries ∨
      (entry.1 = key ∧ entries.find? (fun entry => entry.1 == key) = some entry) := by
  -- Only the first entry under the key can be lost, and that is the one that is found.
  induction entries with
  | nil => exact nomatch member
  | cons first rest ih =>
    unfold assign
    by_cases equal : (first.1 == key) = true
    · rcases List.mem_cons.mp member with rfl | member
      · exact Or.inr ⟨eq_of_beq equal, by simp [equal]⟩
      · exact Or.inl (by simp [equal, member])
    · rcases List.mem_cons.mp member with rfl | member
      · exact Or.inl (by simp [equal])
      · rcases ih member with there | ⟨same, found⟩
        · exact Or.inl (by simp [equal, there])
        · exact Or.inr ⟨same, by simp [equal, found]⟩

/-- A key with a value has an entry with that value. -/
theorem mem_of_get? {map : OrderedMap κ ν} (found : map.get? key = some value) :
    (key, value) ∈ map.entries := by
  -- What is found has the key that was looked for.
  obtain ⟨entry, located, rfl⟩ := Option.map_eq_some_iff.mp found
  have named := List.find?_some located
  rw [beq_iff_eq] at named
  rw [← named]
  exact List.mem_of_find?_eq_some located

/-- Every entry of a union is one of the two maps. -/
theorem mem_of_union {map other : OrderedMap κ ν} (member : entry ∈ (map.union other).entries) :
    entry ∈ map.entries ∨ entry ∈ other.entries := by
  -- By induction on the second map.
  obtain ⟨entries⟩ := other
  induction entries generalizing map with
  | nil => exact Or.inl member
  | cons first rest ih =>
    have assigned : entry ∈ ((map.insert first.1 first.2).union ⟨rest⟩).entries := member
    rcases ih assigned with there | later
    · rcases mem_of_assign there with rfl | before
      · exact Or.inr List.mem_cons_self
      · exact Or.inl before
    · exact Or.inr (List.mem_cons_of_mem _ later)

/-- What a union gives a key is what the second map gives it, or else the first. -/
theorem get?_union_of_distinct (map : OrderedMap κ ν) {other : OrderedMap κ ν}
    (distinct : other.Distinct) (key : κ) :
    (map.union other).get? key = (other.get? key).or (map.get? key) := by
  -- Where keys are distinct there is one entry of each at most.
  have unique : other.Unique key := distinct.imp fun apart here there => by
    rw [here, there, beq_self_eq_true] at apart
    exact nomatch apart
  rw [get?_union (isDiscrete key), get?_union_empty (isDiscrete key) unique]

/-- An assignment keeps the keys of a map distinct. -/
theorem Distinct.assign {map : OrderedMap κ ν} (distinct : map.Distinct) (key : κ) (value : ν) :
    (map.insert key value).Distinct := by
  obtain ⟨entries⟩ := map
  show (OrderedMap.assign key value entries).Pairwise _
  induction entries with
  | nil => exact List.pairwise_singleton _ _
  | cons entry rest ih =>
    obtain ⟨apart, later⟩ := List.pairwise_cons.mp distinct
    unfold OrderedMap.assign
    by_cases equal : (entry.1 == key) = true
    · rw [if_pos equal]
      exact List.pairwise_cons.mpr ⟨apart, later⟩
    · rw [if_neg equal]
      refine List.pairwise_cons.mpr ⟨fun next member => ?_, ih later⟩
      -- What follows is the assigned entry, or stood there before.
      rcases mem_of_assign member with rfl | before
      · exact Bool.eq_false_iff.mpr equal
      · exact apart next before

/-- A union keeps the keys of a map distinct. -/
theorem Distinct.union {map : OrderedMap κ ν} (distinct : map.Distinct)
    (other : OrderedMap κ ν) : (map.union other).Distinct := by
  -- By induction on the second map.
  obtain ⟨entries⟩ := other
  induction entries generalizing map with
  | nil => exact distinct
  | cons entry rest ih => exact ih (distinct.assign entry.1 entry.2)

/-- Unions with maps in turn keep the keys of a map distinct. -/
theorem Distinct.foldl_union {map : OrderedMap κ ν} (distinct : map.Distinct)
    (maps : List (OrderedMap κ ν)) : (maps.foldl OrderedMap.union map).Distinct := by
  induction maps generalizing map with
  | nil => exact distinct
  | cons other rest ih => exact ih (distinct.union other)

/-- Where keys are distinct, every entry is the one that is found under its key. -/
theorem Distinct.get?_of_mem {map : OrderedMap κ ν} (distinct : map.Distinct)
    (member : entry ∈ map.entries) : map.get? entry.1 = some entry.2 := by
  -- By induction on the entries: no earlier one has the key.
  obtain ⟨entries⟩ := map
  induction entries with
  | nil => exact nomatch member
  | cons first rest ih =>
    obtain ⟨apart, later⟩ := List.pairwise_cons.mp distinct
    rcases List.mem_cons.mp member with rfl | behind
    · simp [get?]
    · have found := ih later behind
      simpa [get?, apart entry behind] using found

/-- Of two assignments of a key, the second counts. -/
theorem insert_insert (map : OrderedMap κ ν) (key : κ) (value value' : ν) :
    (map.insert key value).insert key value' = map.insert key value' := by
  -- By induction on the entries: the second value replaces the first in the same place.
  obtain ⟨entries⟩ := map
  refine congrArg mk ?_
  show assign key value' (assign key value entries) = assign key value' entries
  induction entries with
  | nil => simp [assign]
  | cons entry rest ih =>
    by_cases equal : (entry.1 == key) = true
    · simp [assign, equal]
    · simp [assign, equal, ih]

/-- A key that is there can be assigned before another key as well as after it. -/
theorem insert_comm {map : OrderedMap κ ν} {key other : κ} (there : map.contains key = true)
    (ne : other ≠ key) (value value' : ν) :
    (map.insert other value').insert key value = (map.insert key value).insert other value' := by
  -- By induction on the entries: the key has its place already, so that only the other one may be
  -- new.
  obtain ⟨entries⟩ := map
  refine congrArg mk ?_
  show assign key value (assign other value' entries) =
    assign other value' (assign key value entries)
  induction entries with
  | nil => exact nomatch there
  | cons entry rest ih =>
    by_cases found : entry.1 = key
    · -- The key is found here, and the other one further behind.
      subst found
      simp [assign, ne.symm]
    · have behind : contains ⟨rest⟩ key = true := by simpa [contains, found] using there
      by_cases first : entry.1 = other
      · subst first
        simp [assign, found]
      · simp [assign, found, first, ih behind]

/-- An assigned key is there, and so is every key that was there before. -/
theorem contains_insert {map : OrderedMap κ ν} {key other : κ}
    (there : other = key ∨ map.contains key = true) (value : ν) :
    (map.insert other value).contains key = true := by
  -- The key is found as long as it was there, or is the one inserted.
  rw [contains_eq_isSome]
  by_cases same : other = key
  · subst same
    rw [get?_insert_self (isDiscrete other)]
    rfl
  · rw [get?_insert_of_ne (isDiscrete key) _ same, ← contains_eq_isSome]
    exact there.resolve_left same

/-- A key that is there, and that a second map lacks, can be assigned before or after a union. -/
theorem union_insert_comm {map other : OrderedMap κ ν} {key : κ}
    (there : map.contains key = true) (absent : ∀ entry ∈ other.entries, entry.1 ≠ key)
    (value : ν) : (map.union other).insert key value = (map.insert key value).union other := by
  -- By induction on the second map, which does not touch the key.
  obtain ⟨entries⟩ := other
  induction entries generalizing map with
  | nil => rfl
  | cons entry rest ih =>
    obtain ⟨ne, others⟩ := List.forall_mem_cons.mp absent
    show ((map.insert entry.1 entry.2).union ⟨rest⟩).insert key value =
      ((map.insert key value).insert entry.1 entry.2).union ⟨rest⟩
    rw [ih (contains_insert (Or.inr there) _) others, insert_comm there ne]

/-- A union with a map to which a key was assigned is a union to which it is assigned. -/
theorem union_insert (map : OrderedMap κ ν) {other : OrderedMap κ ν} (distinct : other.Distinct)
    (key : κ) (value : ν) :
    map.union (other.insert key value) = (map.union other).insert key value := by
  obtain ⟨entries⟩ := other
  -- The map that is assigned to grows, so that it is general in the induction.
  induction entries generalizing map with
  | nil => rfl
  | cons entry rest ih =>
    obtain ⟨apart, later⟩ := List.pairwise_cons.mp distinct
    show map.union ⟨assign key value (entry :: rest)⟩ =
      ((map.insert entry.1 entry.2).union ⟨rest⟩).insert key value
    unfold assign
    by_cases same : entry.1 = key
    · subst same
      have absent : ∀ next ∈ rest, next.1 ≠ entry.1 := fun next member =>
        (ne_of_beq_false (apart next member)).symm
      rw [if_pos (beq_self_eq_true _), union_insert_comm (contains_insert (Or.inl rfl) _) absent,
        insert_insert]
      rfl
    · rw [if_neg (by simpa using same)]
      exact ih (map.insert entry.1 entry.2) later

/-- Unions in a row can be taken from either end. -/
theorem union_assoc (first : OrderedMap κ ν) {second : OrderedMap κ ν}
    (distinct : second.Distinct) (third : OrderedMap κ ν) :
    first.union (second.union third) = (first.union second).union third := by
  obtain ⟨entries⟩ := third
  -- Every entry of the third map is assigned to the second one, or to the union.
  induction entries generalizing second with
  | nil => rfl
  | cons entry rest ih =>
    show first.union ((second.insert entry.1 entry.2).union ⟨rest⟩) =
      ((first.union second).insert entry.1 entry.2).union ⟨rest⟩
    rw [ih (distinct.assign _ _), union_insert first distinct]

/-- Unions with maps in turn, taken together first or not. -/
theorem union_foldl (start first : OrderedMap κ ν) {maps : List (OrderedMap κ ν)}
    (distinct : first.Distinct) :
    start.union (maps.foldl union first) = maps.foldl union (start.union first) := by
  -- By induction on the maps, moving the start past one at a time.
  induction maps generalizing first with
  | nil => rfl
  | cons map rest ih =>
    rw [List.foldl_cons, ih _ (distinct.union map), union_assoc start distinct, List.foldl_cons]

/-- Of maps that are joined in turn, the last one that has a key gives it its value. -/
theorem get?_foldl_union (start : OrderedMap κ ν) {maps : List (OrderedMap κ ν)}
    (distinct : ∀ map ∈ maps, map.Distinct) (key : κ) :
    (maps.foldl union start).get? key =
      (maps.reverse.findSome? fun map => map.get? key).or (start.get? key) := by
  induction maps generalizing start with
  | nil => rfl
  | cons map rest ih =>
    -- The first map counts behind all later ones, and in front of the start.
    obtain ⟨first, others⟩ := List.forall_mem_cons.mp distinct
    rw [List.foldl_cons, ih _ others, get?_union_of_distinct _ first, List.reverse_cons,
      List.findSome?_append, Option.or_assoc]
    simp

end Lawful

end OrderedMap

namespace Value

/-- Only a text equals a text. -/
theorem eq_text_of_same {value : Value} {words : String}
    (equal : (value == Value.text words) = true) : value = .text words := by
  cases value <;> simp_all [BEq.beq, same, sameAtom, sameNumber?]

/-- A text equals itself and nothing else. -/
theorem isDiscrete_text (words : String) : OrderedMap.IsDiscrete (Value.text words) where
  left other := ⟨eq_text_of_same, fun same => by simp [same, BEq.beq, Value.same, sameAtom]⟩
  right other := by
    cases other <;> simp [BEq.beq, Value.same, sameAtom, sameNumber?, eq_comm]

/-- An entry that may be there is what is found under its name, and nothing else is. -/
theorem get?_optional {ν : Type} (name other : String) (value : Option ν)
    (rest : List (Value × ν)) :
    OrderedMap.get? ⟨(value.map fun given => (Value.text name, given)).toList ++ rest⟩
        (.text other) =
      if name = other then value.or (OrderedMap.get? ⟨rest⟩ (.text other))
      else OrderedMap.get? ⟨rest⟩ (.text other) := by
  -- An entry that is there is found under its own name, and hides what comes behind.
  cases value with
  | none => simp
  | some given =>
    by_cases alike : name = other
    · subst alike
      have equal : (text name == text name) = true := ((isDiscrete_text name).left _).mpr rfl
      simp [OrderedMap.get?, equal]
    · have unequal : (text name == text other) = false := Bool.eq_false_iff.mpr fun equal =>
        alike (text.inj (eq_text_of_same equal))
      simp [OrderedMap.get?, unequal, alike]

end Value

end ContentQuery
