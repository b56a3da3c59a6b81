import ContentQuery.Proofs.Contentful.Request

/-! What filter maps ask for, and what the conditions ask for that they are converted from. -/

namespace ContentQuery.Contentful

/-- The texts between the commas of a text. -/
def itemsOf (sent : String) : List String :=
  (sent.toList.splitOn ',').map String.ofList

/-- A list parameter is read back as its items, none of which holds a comma. -/
theorem itemsOf_intercalate {parts : List String} (some_ : parts ≠ [])
    (whole : ∀ part ∈ parts, ',' ∉ part.toList) : itemsOf (",".intercalate parts) = parts := by
  -- The separator is none of the characters of the items, and splitting undoes joining.
  have split : (",".intercalate parts).toList.splitOn ',' = parts.map String.toList := by
    rw [String.toList_intercalate]
    exact List.splitOn_intercalate ',' (by simpa using whole) (by simpa using some_)
  rw [itemsOf, split, List.map_map]
  exact List.map_id'' (fun part => String.ofList_toList) parts

/-- Which entries hold that do not speak of others, and which leaves hold that have no entry. -/
structure Reading where
  entry : String → String → Prop
  dropped : Value → Comparison → Value → Prop

namespace Reading

/--
Whether an entry holds whose key is given from its end. A list of values asks for one of them, a
difference denies an equality, and to be there is not to be missing.
-/
def keyHolds (reading : Reading) : List Char → String → Prop
  | ']' :: 'n' :: 'i' :: '[' :: key, sent => ∃ item ∈ itemsOf sent, reading.keyHolds key item
  | ']' :: 'e' :: 'n' :: '[' :: key, sent => ¬ reading.keyHolds key sent
  | ']' :: 's' :: 't' :: 's' :: 'i' :: 'x' :: 'e' :: '[' :: key, "true" =>
    ¬ reading.entry (String.ofList key.reverse ++ "[exists]") "false"
  -- Every other entry is an atom, among them that a field is missing.
  | key, sent => reading.entry (String.ofList key.reverse) sent
termination_by structural key => key

/-- Whether an entry holds. -/
def Holds (reading : Reading) (key sent : String) : Prop :=
  reading.keyHolds key.toList.reverse sent

variable (reading : Reading) (key sent : String)

/-- A list of values asks for one of them. -/
theorem holds_in : reading.Holds (key ++ "[in]") sent ↔
    ∃ item ∈ itemsOf sent, reading.Holds key item := by
  simp [Holds, keyHolds]

/-- A difference denies an equality. -/
theorem holds_ne : reading.Holds (key ++ "[ne]") sent ↔ ¬ reading.Holds key sent := by
  simp [Holds, keyHolds]

/-- To be there is not to be missing. -/
theorem holds_exists : reading.Holds (key ++ "[exists]") "true" ↔
    ¬ reading.Holds (key ++ "[exists]") "false" := by
  simp [Holds, keyHolds]

end Reading

/-- Whether a filter map holds: all of its entries do, less the one that names a content type. -/
def MapHolds (reading : Reading) (map : FilterMap) : Prop :=
  ∀ entry ∈ map.entries, entry.1 ≠ "content_type" → reading.Holds entry.1 entry.2.sent

@[simp] theorem mapHolds_empty (reading : Reading) : MapHolds reading .empty := by
  simp [MapHolds, OrderedMap.empty]

/-- What a leaf asks for by itself: its own entry, or anything where it has none. -/
def AloneHolds (reading : Reading) (field : Value) (comparison : Comparison) (value : Value) :
    Prop :=
  match convertLeaf field comparison value .empty with
  | .ok (map, _) =>
    if map.entries = [] then reading.dropped field comparison value else MapHolds reading map
  -- A leaf that is refused by itself has no entry either.
  | .error _ => reading.dropped field comparison value

/-- What a leaf asks for: to be in a list is to equal one of its items. -/
def LeafHolds (reading : Reading) (field : Value) (comparison : Comparison) (value : Value) :
    Prop :=
  match comparison, value with
  | .known .oneOf, .list items =>
    ∃ item ∈ items, AloneHolds reading field (.known .equal) item
  | _, _ => AloneHolds reading field comparison value

mutual

/-- What a condition asks for. -/
def Holds (reading : Reading) : Condition → Prop
  | .leaf field comparison value => LeafHolds reading field comparison value
  | .all conditions => AllHold reading conditions
  | .any conditions => AnyHolds reading conditions
  | .not condition => ¬ Holds reading condition
termination_by structural input => input

/-- What conditions ask for together. -/
def AllHold (reading : Reading) : List Condition → Prop
  | [] => True
  | condition :: rest => Holds reading condition ∧ AllHold reading rest
termination_by structural input => input

/-- What conditions ask for as alternatives. -/
def AnyHolds (reading : Reading) : List Condition → Prop
  | [] => False
  | condition :: rest => Holds reading condition ∨ AnyHolds reading rest
termination_by structural input => input

end

@[simp] theorem allHold_iff (reading : Reading) (conditions : List Condition) :
    AllHold reading conditions ↔ ∀ condition ∈ conditions, Holds reading condition := by
  induction conditions with
  | nil => simp [AllHold]
  | cons condition rest ih => simp [AllHold, ih]

@[simp] theorem anyHolds_iff (reading : Reading) (conditions : List Condition) :
    AnyHolds reading conditions ↔ ∃ condition ∈ conditions, Holds reading condition := by
  induction conditions with
  | nil => simp [AnyHolds]
  | cons condition rest ih => simp [AnyHolds, ih]

mutual

/-- What constrains nothing asks for nothing. -/
theorem holds_of_alwaysTrue (reading : Reading) : (condition : Condition) →
    condition.alwaysTrue = true → Holds reading condition
  -- Only conjunctions constrain nothing.
  | .leaf _ _ _, free | .any _, free | .not _, free => nomatch free
  | .all conditions, free => allHold_of_alwaysTrue reading conditions free
termination_by structural condition => condition

/-- Conditions that constrain nothing ask for nothing. -/
theorem allHold_of_alwaysTrue (reading : Reading) : (conditions : List Condition) →
    Condition.allAlwaysTrue conditions = true → AllHold reading conditions
  | [], _ => trivial
  | condition :: rest, free => by
    obtain ⟨first, others⟩ := Bool.and_eq_true_iff.mp free
    exact ⟨holds_of_alwaysTrue reading condition first, allHold_of_alwaysTrue reading rest others⟩
termination_by structural conditions => conditions

end

mutual

/-- Whether a literal is null, a text, an integer or a list of such literals. -/
def isPlain : Value → Bool
  | .null => true
  | .text _ => true
  | .int _ => true
  | .list items => allPlain items
  | _ => false
termination_by structural input => input

/-- Whether all literals of a list are plain. -/
def allPlain : List Value → Bool
  | [] => true
  | item :: rest => isPlain item && allPlain rest
termination_by structural input => input

end

@[simp] theorem allPlain_iff (items : List Value) :
    allPlain items = true ↔ ∀ item ∈ items, isPlain item = true := by
  induction items with
  | nil => simp [allPlain]
  | cons item rest ih => simp [allPlain, ih]

mutual

/-- Whether the literals of a condition are plain. -/
def hasPlain : Condition → Bool
  | .leaf _ _ value => isPlain value
  | .all conditions => allHavePlain conditions
  | .any conditions => allHavePlain conditions
  | .not condition => hasPlain condition
termination_by structural input => input

/-- Whether the literals of all conditions are plain. -/
def allHavePlain : List Condition → Bool
  | [] => true
  | condition :: rest => hasPlain condition && allHavePlain rest
termination_by structural input => input

end

@[simp] theorem allHavePlain_iff (conditions : List Condition) :
    allHavePlain conditions = true ↔ ∀ condition ∈ conditions, hasPlain condition = true := by
  induction conditions with
  | nil => simp [allHavePlain]
  | cons condition rest ih => simp [allHavePlain, ih]

end ContentQuery.Contentful
