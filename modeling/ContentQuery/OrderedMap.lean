/-! Maps that keep their keys in the order of first insertion. -/

namespace ContentQuery

/-- Entries in insertion order, where assigning a key again keeps its position. -/
structure OrderedMap (κ : Type) (ν : Type) where
  entries : List (κ × ν)
  deriving Repr

namespace OrderedMap

variable {κ ν : Type} [BEq κ]

/-- The map without entries. -/
def empty : OrderedMap κ ν :=
  ⟨[]⟩

/-- The keys in insertion order. -/
def keys (map : OrderedMap κ ν) : List κ :=
  map.entries.map Prod.fst

/-- The value of a key. -/
def get? (map : OrderedMap κ ν) (key : κ) : Option ν :=
  (map.entries.find? fun entry => entry.1 == key).map Prod.snd

/-- Whether a key has a value. -/
def contains (map : OrderedMap κ ν) (key : κ) : Bool :=
  map.entries.any fun entry => entry.1 == key

/-- Assigns a key in a list of entries, in its place or at the end. -/
def assign (key : κ) (value : ν) : List (κ × ν) → List (κ × ν)
  | [] => [(key, value)]
  | (present, old) :: rest =>
    if present == key then (present, value) :: rest else (present, old) :: assign key value rest

/-- Assigns a key. -/
def insert (map : OrderedMap κ ν) (key : κ) (value : ν) : OrderedMap κ ν :=
  ⟨assign key value map.entries⟩

/-- Assigns every entry of a second map in turn. -/
def union (map other : OrderedMap κ ν) : OrderedMap κ ν :=
  other.entries.foldl (fun result entry => result.insert entry.1 entry.2) map

/-- The map that a list of assignments leads to. -/
def ofList (entries : List (κ × ν)) : OrderedMap κ ν :=
  union empty ⟨entries⟩

end OrderedMap

end ContentQuery
