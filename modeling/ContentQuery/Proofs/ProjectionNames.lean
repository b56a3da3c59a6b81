import ContentQuery.Projection

/-! The names of projections at every level, and names that are looked for in a map. -/

namespace ContentQuery.Projection

/-- Whether a name is a text that is accepted. -/
def isTextThat (accepts : String → Bool) : Value → Bool
  | .text name => accepts name
  | _ => false

mutual

/-- Whether a projection and those below it have accepted texts for names. -/
def isNamed (accepts : String → Bool) : Projection → Bool
  | .included name | .excluded name | .alias name _ | .computed name _ _ | .resolved name =>
    isTextThat accepts name
  | .nested name fields | .expanded name fields =>
    isTextThat accepts name && areNamed accepts fields
  | .stray _ => false
termination_by structural input => input

/-- Whether several projections and those below them do. -/
def areNamed (accepts : String → Bool) : List Projection → Bool
  | [] => true
  | item :: rest => isNamed accepts item && areNamed accepts rest
termination_by structural input => input

end

/-- Projections in two rows are named where those of both rows are. -/
theorem areNamed_append (accepts : String → Bool) (first second : List Projection) :
    areNamed accepts (first ++ second) = (areNamed accepts first && areNamed accepts second) := by
  -- The test goes through the items one by one, so that it splits where the list does.
  induction first with
  | nil => rfl
  | cons item rest ih => rw [List.cons_append, areNamed, areNamed, ih, Bool.and_assoc]

/-- A name that is accepted is a text. -/
theorem exists_of_isTextThat {accepts : String → Bool} {name : Value}
    (named : isTextThat accepts name = true) :
    ∃ words, name = .text words ∧ accepts words = true := by
  -- No value of another kind passes for a name.
  cases name with
  | text words => exact ⟨words, rfl, named⟩
  | _ => exact nomatch named

/-- Maps with the same entries under some names have the same first entry under one of them. -/
theorem firstOf_congr {names : List String} {entries entries' : List (Value × Value)}
    (same : ∀ name ∈ names, Value.lookup? name entries = Value.lookup? name entries') :
    firstOf names entries = firstOf names entries' := by
  -- Each name is looked up in turn, and finds the same in both.
  unfold firstOf
  induction names with
  | nil => rfl
  | cons name rest ih =>
    obtain ⟨here, later⟩ := List.forall_mem_cons.mp same
    rw [List.findSome?_cons, List.findSome?_cons, here, ih later]

/-- A map that lacks what another lacks has none of some names where the other has none. -/
theorem firstOf_none_of_imp {names : List String} {entries entries' : List (Value × Value)}
    (lacks : ∀ name, Value.lookup? name entries = none → Value.lookup? name entries' = none)
    (absent : firstOf names entries = none) : firstOf names entries' = none :=
  List.findSome?_eq_none_iff.mpr fun name member =>
    lacks name (List.findSome?_eq_none_iff.mp absent name member)

end ContentQuery.Projection
