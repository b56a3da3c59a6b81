import ContentQuery.Groq.Statement
import ContentQuery.Proofs.Groq.Spans

/-! The names that a text refers to by dollar signs outside of its string literals. -/

namespace ContentQuery.Groq

/-- Where a character stands with regard to the string literals of a text. -/
inductive Place where
  | outside
  | inside (mark : Char)
  /-- Behind a backslash inside a literal. -/
  | escaped (mark : Char)
  deriving DecidableEq

/-- The place behind a character. -/
def Place.next : Place → Char → Place
  | .outside, c => if isQuote c then .inside c else .outside
  | .inside mark, c =>
    if c = '\\' then .escaped mark else if c = mark then .outside else .inside mark
  | .escaped mark, _ => .inside mark

/-- The names behind the dollar signs outside of string literals, from a place on. -/
def referencesFrom : Place → List Char → List String
  | _, [] => []
  | place, c :: rest =>
    if place = .outside ∧ c = '$' then
      String.ofList (rest.takeWhile isNameTail) :: referencesFrom (place.next c) rest
    else referencesFrom (place.next c) rest

/-- The names that a text refers to outside of its string literals, in their order. -/
def references (text : String) : List String :=
  referencesFrom .outside text.toList

/-- Whether no name that stands in front of characters goes on in them. -/
def Ends (chars : List Char) : Prop :=
  chars.head?.any isNameTail = false

instance (chars : List Char) : Decidable (Ends chars) :=
  inferInstanceAs (Decidable (_ = false))

/-- Characters that refer to no name and leave no literal open, whatever follows. -/
def Silent (chars : List Char) : Prop :=
  ∀ rest, referencesFrom .outside (chars ++ rest) = referencesFrom .outside rest

/-- Characters that refer to names and leave no literal open, where the last name ends. -/
def Refers (chars : List Char) (names : List String) : Prop :=
  ∀ rest, Ends rest →
    referencesFrom .outside (chars ++ rest) = names ++ referencesFrom .outside rest

/-- The names that a text refers to are those that its characters refer to. -/
theorem Refers.references_eq {text : String} {names : List String}
    (refers : Refers text.toList names) : references text = names := by
  have whole := refers [] rfl
  rw [List.append_nil] at whole
  rw [references, whole]
  exact List.append_nil names

/-- Characters refer to at most one list of names. -/
theorem Refers.unique {chars : List Char} {names names' : List String}
    (refers : Refers chars names) (refers' : Refers chars names') : names = names' := by
  have same := (refers [] rfl).symm.trans (refers' [] rfl)
  simpa [referencesFrom] using same

/-- Characters that do not go on with a name do not either where others follow. -/
theorem Ends.append {first second : List Char} (left : Ends first) (right : Ends second) :
    Ends (first ++ second) := by
  cases first with
  | nil => exact right
  | cons c rest => exact left

/-- Words that do not open like the rest of a name end one, whatever follows. -/
theorem ends_words {words : List Char} (opens : words.head?.any (!isNameTail ·) = true)
    (rest : List Char) : Ends (words ++ rest) := by
  cases words with
  | nil => exact nomatch opens
  | cons c _ => simpa [Ends] using opens

/-- The marks that open a reference or a literal. -/
def openingMarks : List Char :=
  ['$', '"', '\'']

/-- A character that is no such mark refers to nothing. -/
theorem referencesFrom_unmarked {c : Char} (unmarked : c ∉ openingMarks) (rest : List Char) :
    referencesFrom .outside (c :: rest) = referencesFrom .outside rest := by
  -- The character opens neither a reference nor a string.
  obtain ⟨noDollar, noDouble, noSingle⟩ : c ≠ '$' ∧ c ≠ '"' ∧ c ≠ '\'' := by
    simpa [openingMarks] using unmarked
  rw [referencesFrom, if_neg (fun both => noDollar both.2)]
  simp [Place.next, isQuote, noDouble, noSingle]

/-- Characters without such marks are silent. -/
theorem silent_of_unmarked {chars : List Char} (unmarked : ∀ c ∈ chars, c ∉ openingMarks) :
    Silent chars := by
  -- By induction on the characters, none of which opens a reference or a string.
  intro rest
  induction chars with
  | nil => rfl
  | cons c more ih =>
    obtain ⟨here, later⟩ := List.forall_mem_cons.mp unmarked
    rw [List.cons_append, referencesFrom_unmarked here, ih later]

/-- Words without such marks are silent. -/
theorem silent_words {words : List Char} (plain : words.any openingMarks.contains = false) :
    Silent words := by
  refine silent_of_unmarked fun c member marked => ?_
  rw [List.any_eq_true.mpr ⟨c, member, List.contains_iff_mem.mpr marked⟩] at plain
  exact nomatch plain

/-- Two silent parts in a row are silent. -/
theorem Silent.append {first second : List Char} (left : Silent first) (right : Silent second) :
    Silent (first ++ second) := by
  intro rest
  rw [List.append_assoc, left, right]

/-- What is silent refers to no name. -/
theorem Silent.refers {chars : List Char} (silent : Silent chars) : Refers chars [] :=
  fun rest _ => silent rest

/-- Names behind what is silent are all the names. -/
theorem Silent.before {first second : List Char} {names : List String} (silent : Silent first)
    (refers : Refers second names) : Refers (first ++ second) names := by
  intro rest ends
  rw [List.append_assoc, silent, refers rest ends]

/-- The names of two parts in a row are those of both, where the second ends a name. -/
theorem Refers.append {first second : List Char} {names names' : List String}
    (left : Refers first names) (ends : Ends second) (right : Refers second names') :
    Refers (first ++ second) (names ++ names') := by
  intro rest ends'
  rw [List.append_assoc, left _ (ends.append ends'), right rest ends', List.append_assoc]

/-- The names in front of what is silent, and ends a name, are all the names. -/
theorem Refers.before {first second : List Char} {names : List String}
    (left : Refers first names) (ends : Ends second) (silent : Silent second) :
    Refers (first ++ second) names := by
  have joined := left.append ends silent.refers
  rwa [List.append_nil] at joined

/-- Inside a literal, what stays between the quotes refers to no name. -/
theorem referencesFrom_quotable {chars : List Char} (quotable : Quotable chars)
    (rest : List Char) :
    referencesFrom (.inside '"') (chars ++ rest) = referencesFrom (.inside '"') rest := by
  -- By induction on the quoted text: an escaped character is passed together with its escape.
  induction quotable with
  | nil => rfl
  | plain unquoted unescaped _ ih =>
    simpa [referencesFrom, Place.next, unquoted, unescaped] using ih
  | escaped c _ ih => simpa [referencesFrom, Place.next] using ih

/-- A JSON string is silent, whatever it holds. -/
theorem silent_jsonString (text : String) : Silent (Text.jsonString text).toList := by
  intro rest
  rw [toList_jsonString]
  simp [referencesFrom, Place.next, isQuote, referencesFrom_quotable (quotable_jsonChars _)]

/-- The name of a placeholder is a name throughout. -/
theorem isNameTail_of_mem_slotName {slot : Nat} {c : Char}
    (member : c ∈ (Context.slotName slot).toList) : isNameTail c = true := by
  -- A slot is called by a letter and decimal digits.
  simp only [Context.slotName, String.toList_append, List.mem_append] at member
  rcases member with letter | digit
  · have only : c = 'p' := by simpa using letter
    rw [only]
    decide
  · have digit := isDigit_of_mem_toString digit
    simp [isNameTail, Char.isAlphanum, digit]

/-- A reference to a placeholder refers to the placeholder's name. -/
theorem refers_slotReference (slot : Nat) :
    Refers (Context.slotReference slot).toList [Context.slotName slot] := by
  intro rest ends
  have written : (Context.slotReference slot).toList = '$' :: (Context.slotName slot).toList := by
    simp [Context.slotReference]
  have unmarked : Silent (Context.slotName slot).toList :=
    silent_of_unmarked fun c member =>
      not_mem_of_class (by decide) (isNameTail_of_mem_slotName member)
  -- The name goes on up to what follows, where it ends.
  have taken : ((Context.slotName slot).toList ++ rest).takeWhile isNameTail =
      (Context.slotName slot).toList := by
    rw [List.takeWhile_append_of_pos fun c => isNameTail_of_mem_slotName]
    cases rest with
    | nil => simp
    | cons c more => simp [show isNameTail c = false from ends]
  rw [written, List.cons_append, referencesFrom, if_pos ⟨rfl, rfl⟩, taken, String.ofList_toList]
  have outside : Place.next .outside '$' = .outside := rfl
  rw [outside, unmarked]
  rfl

/-- Parts with a silent separator between each two of them refer to the names of all parts. -/
theorem refers_intercalate {α : Type} {separator : List Char} (silent : Silent separator)
    (ends : separator.head?.any (!isNameTail ·) = true) {parts : List α} {write : α → List Char}
    {names : α → List String} (refers : ∀ part ∈ parts, Refers (write part) (names part)) :
    Refers (separator.intercalate (parts.map write)) (parts.flatMap names) := by
  induction parts with
  | nil => exact fun _ _ => rfl
  | cons first rest ih =>
    obtain ⟨here, later⟩ := List.forall_mem_cons.mp refers
    cases rest with
    | nil => simpa using here
    | cons second more =>
      rw [List.map_cons, List.map_cons, List.intercalate_cons_cons, List.append_assoc,
        List.flatMap_cons]
      -- The separator ends the names of the first part, whatever stands behind it.
      exact here.append (ends_words ends _) (silent.before (ih later))

end ContentQuery.Groq
