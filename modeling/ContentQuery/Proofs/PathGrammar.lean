import ContentQuery.Contentful.Filter
import ContentQuery.Proofs.Groq.ProjectionEntries
import ContentQuery.Qdrant.Filter

/-! The languages of field paths: what the reading of a path accepts is what its grammar derives. -/

namespace ContentQuery

namespace PathGrammar

/-- Whether characters are a name: a letter or the underscore, then letters, digits, underscores. -/
def IsSegmentName (chars : List Char) : Prop :=
  ∃ head tail, chars = head :: tail ∧ (head.isAlpha = true ∨ head = '_') ∧
    ∀ c ∈ tail, c.isAlphanum = true ∨ c = '_'

/-- What may stand behind a name, with the characters that count as digits. -/
inductive IsIndex (grammar : PathGrammar) (digit : Char → Bool) : List Char → Prop where
  | absent : IsIndex grammar digit []
  | vacant : grammar.index ≠ .forbidden → IsIndex grammar digit ['[', ']']
  | number {digits : List Char} : grammar.index = .number → (∀ c ∈ digits, digit c = true) →
      IsIndex grammar digit ('[' :: digits ++ [']'])

/-- What may stand between two names. -/
inductive IsJoint (grammar : PathGrammar) : List Char → Prop where
  | dot : IsJoint grammar ['.']
  | arrow : grammar.arrows = true → IsJoint grammar ['-', '>']

/-- The paths of a grammar: names with what may stand behind them, and joints between them. -/
inductive Derives (grammar : PathGrammar) (digit : Char → Bool) : List Char → Prop where
  | segment {name index : List Char} : IsSegmentName name → grammar.IsIndex digit index →
      Derives grammar digit (name ++ index)
  | joined {name index joint path : List Char} : IsSegmentName name →
      grammar.IsIndex digit index → grammar.IsJoint joint → Derives grammar digit path →
      Derives grammar digit (name ++ index ++ joint ++ path)

/-- What may follow a segment: nothing, or a joint and a path. -/
def Continues (grammar : PathGrammar) (digit : Char → Bool) (chars : List Char) : Prop :=
  chars = [] ∨ ∃ joint path, grammar.IsJoint joint ∧ grammar.Derives digit path ∧
    chars = joint ++ path

/-- Whether a text has some characters, and at most a line break behind them. -/
def IsLineOf (chars : List Char) (text : String) : Prop :=
  text.toList = chars ∨ text.toList = chars ++ ['\n']

/-- Whether a character is one of those that paths are made of. -/
def isFieldChar (c : Char) : Bool :=
  c.isAlphanum || ['_', '.', '[', ']', '-', '>'].contains c

section Reading

variable {grammar : PathGrammar}

/-- A path is a name, what may stand behind it, and what may follow both. -/
theorem derives_iff {digit : Char → Bool} {chars : List Char} :
    grammar.Derives digit chars ↔ ∃ name index rest, IsSegmentName name ∧
      grammar.IsIndex digit index ∧ grammar.Continues digit rest ∧
        chars = name ++ (index ++ rest) := by
  -- A path ends behind its first segment, or goes on with a joint and another path.
  constructor
  · intro derives
    cases derives with
    | segment named indexed => exact ⟨_, _, [], named, indexed, .inl rfl, by simp⟩
    | joined named indexed joint path =>
      exact ⟨_, _, _, named, indexed, .inr ⟨_, _, joint, path, rfl⟩, by simp⟩
  · rintro ⟨name, index, rest, named, indexed, rfl | ⟨joint, path, joins, derives, rfl⟩, rfl⟩
    · rw [List.append_nil]
      exact .segment named indexed
    · rw [← List.append_assoc, ← List.append_assoc]
      exact .joined named indexed joins derives

/-- What may follow a state on the way to the end of a path. -/
def Follows (grammar : PathGrammar) : PathState → List Char → Prop
  | .opening, chars => grammar.Derives Text.isDigit chars
  | .name, chars => ∃ tail index rest, (∀ c ∈ tail, isNameTail c = true) ∧
      grammar.IsIndex Text.isDigit index ∧ grammar.Continues Text.isDigit rest ∧
        chars = tail ++ (index ++ rest)
  | .bracket, chars => ∃ digits rest, (∀ c ∈ digits, Text.isDigit c = true) ∧
      (digits ≠ [] → grammar.index = .number) ∧ grammar.Continues Text.isDigit rest ∧
        chars = digits ++ ']' :: rest
  | .closed, chars => grammar.Continues Text.isDigit chars
  | .arrow, chars => ∃ path, grammar.Derives Text.isDigit path ∧ chars = '>' :: path

/-- The head of a name is a letter or the underscore. -/
theorem isNameHead_iff {c : Char} : isNameHead c = true ↔ c.isAlpha = true ∨ c = '_' := by
  simp [isNameHead]

/-- A name goes on with letters, digits and underscores. -/
theorem isNameTail_iff {c : Char} : isNameTail c = true ↔ c.isAlphanum = true ∨ c = '_' := by
  simp [isNameTail]

/-- A path opens with the head of a name, and goes on like that name. -/
theorem follows_opening_cons {c : Char} {chars : List Char} :
    grammar.Follows .opening (c :: chars) ↔ isNameHead c = true ∧ grammar.Follows .name chars := by
  -- A name is its head and its tail, and what follows the name follows that tail.
  simp only [Follows, derives_iff]
  constructor
  · rintro ⟨_, index, rest, ⟨head, tail, rfl, opens, goes⟩, indexed, continues, same⟩
    obtain ⟨rfl, rfl⟩ := List.cons.inj same
    exact ⟨isNameHead_iff.mpr opens, tail, index, rest,
      fun c member => isNameTail_iff.mpr (goes c member), indexed, continues, rfl⟩
  · rintro ⟨opens, tail, index, rest, goes, indexed, continues, rfl⟩
    exact ⟨c :: tail, index, rest, ⟨c, tail, rfl, isNameHead_iff.mp opens,
      fun c member => isNameTail_iff.mp (goes c member)⟩, indexed, continues, rfl⟩

/-- Behind a segment comes the character of a joint, and then what follows that. -/
theorem continues_cons {c : Char} {chars : List Char} :
    grammar.Continues Text.isDigit (c :: chars) ↔
      ∃ next, grammar.joint c = some next ∧ grammar.Follows next chars := by
  unfold Continues joint
  -- A dot is a whole joint; a dash is one only together with the character behind it.
  constructor
  · rintro (empty | ⟨_, path, joins, derives, same⟩)
    · exact nomatch empty
    · cases joins with
      | dot =>
        obtain ⟨rfl, rfl⟩ := List.cons.inj same
        exact ⟨.opening, if_pos rfl, derives⟩
      | arrow allowed =>
        obtain ⟨rfl, rfl⟩ := List.cons.inj same
        exact ⟨.arrow, by simp [allowed], path, derives, rfl⟩
  · rintro ⟨next, joined, follows⟩
    refine .inr ?_
    split at joined
    · next dot =>
      subst dot
      cases joined
      exact ⟨['.'], chars, .dot, follows, rfl⟩
    · split at joined
      · next arrow =>
        simp only [Bool.and_eq_true, decide_eq_true_eq] at arrow
        obtain ⟨rfl, allowed⟩ := arrow
        cases joined
        obtain ⟨path, derives, rfl⟩ := follows
        exact ⟨['-', '>'], path, .arrow allowed, derives, rfl⟩
      · exact nomatch joined

/-- In a name comes more of the name, the bracket of an index, or what may follow the segment. -/
theorem follows_name_cons {c : Char} {chars : List Char} :
    grammar.Follows .name (c :: chars) ↔
      isNameTail c = true ∧ grammar.Follows .name chars ∨
      (c = '[' ∧ grammar.index ≠ .forbidden) ∧ grammar.Follows .bracket chars ∨
      grammar.Continues Text.isDigit (c :: chars) := by
  -- Behind a name its own characters may go on, a bracket may open, or a joint may follow.
  constructor
  · rintro ⟨tail, index, rest, goes, indexed, continues, same⟩
    cases tail with
    | cons first tail =>
      obtain ⟨rfl, rfl⟩ := List.cons.inj same
      obtain ⟨here, later⟩ := List.forall_mem_cons.mp goes
      exact .inl ⟨here, tail, index, rest, later, indexed, continues, rfl⟩
    | nil =>
      refine .inr ?_
      cases indexed with
      | absent => exact .inr (same ▸ continues)
      | vacant allowed =>
        obtain ⟨rfl, rfl⟩ := List.cons.inj same
        exact .inl ⟨⟨rfl, allowed⟩, [], rest, nofun, (absurd rfl ·), continues, rfl⟩
      | number allowed digits =>
        obtain ⟨rfl, rfl⟩ := List.cons.inj same
        exact .inl ⟨⟨rfl, by simp [allowed]⟩, _, rest, digits, fun _ => allowed, continues,
          by simp⟩
  · rintro (⟨here, tail, index, rest, goes, indexed, continues, rfl⟩ |
      ⟨⟨rfl, allowed⟩, digits, rest, numeric, number, continues, rfl⟩ | continues)
    · exact ⟨c :: tail, index, rest, List.forall_mem_cons.mpr ⟨here, goes⟩, indexed, continues,
        rfl⟩
    · -- Brackets without digits may stand where no number may.
      cases digits with
      | nil => exact ⟨[], _, rest, nofun, .vacant allowed, continues, rfl⟩
      | cons first digits =>
        exact ⟨[], _, rest, nofun, .number (number (by simp)) numeric, continues, by simp⟩
    · exact ⟨[], [], c :: chars, nofun, .absent, continues, rfl⟩

/-- In brackets comes their end, or a digit where a number may stand. -/
theorem follows_bracket_cons {c : Char} {chars : List Char} :
    grammar.Follows .bracket (c :: chars) ↔
      c = ']' ∧ grammar.Continues Text.isDigit chars ∨
      (grammar.index = .number ∧ Text.isDigit c = true) ∧ grammar.Follows .bracket chars := by
  -- A bracket is closed at once, or holds digits where it may.
  constructor
  · rintro ⟨digits, rest, numeric, number, continues, same⟩
    cases digits with
    | nil =>
      obtain ⟨rfl, rfl⟩ := List.cons.inj same
      exact .inl ⟨rfl, continues⟩
    | cons first digits =>
      obtain ⟨rfl, rfl⟩ := List.cons.inj same
      obtain ⟨here, later⟩ := List.forall_mem_cons.mp numeric
      have allowed := number (by simp)
      exact .inr ⟨⟨allowed, here⟩, digits, rest, later, fun _ => allowed, continues, rfl⟩
  · rintro (⟨rfl, continues⟩ | ⟨⟨allowed, here⟩, digits, rest, numeric, -, continues, rfl⟩)
    · exact ⟨[], chars, nofun, (absurd rfl ·), continues, rfl⟩
    · exact ⟨c :: digits, rest, List.forall_mem_cons.mpr ⟨here, numeric⟩, fun _ => allowed,
        continues, rfl⟩

/-- A character may stand behind a state exactly where a step takes it, and the rest follows. -/
theorem follows_cons {state : PathState} {c : Char} {chars : List Char} :
    grammar.Follows state (c :: chars) ↔
      ∃ next, grammar.step state c = some next ∧ grammar.Follows next chars := by
  -- One step of the automaton in each state is one character of the grammar.
  cases state with
  | opening =>
    rw [follows_opening_cons, step]
    by_cases head : isNameHead c = true <;> simp [head]
  | name =>
    rw [follows_name_cons, step]
    -- The three ways on differ in their first character.
    have apart : isNameTail c = true → c ≠ '[' ∧ grammar.joint c = none := by
      intro tail
      have marks : c ∉ ['[', '.', '-'] := Groq.not_mem_of_class (by decide) tail
      simp only [List.mem_cons, List.not_mem_nil, or_false, not_or] at marks
      exact ⟨marks.1, by simp [joint, marks]⟩
    have bracket : grammar.joint '[' = none := by simp [joint]
    by_cases tail : isNameTail c = true
    · simp [tail, continues_cons, apart tail]
    · by_cases opens : c = '[' ∧ grammar.index ≠ .forbidden
      · obtain ⟨rfl, allowed⟩ := opens
        simp [tail, allowed, continues_cons, bracket]
      · simp [tail, opens, continues_cons, -ne_eq, -Decidable.not_not]
  | bracket =>
    rw [follows_bracket_cons, step]
    by_cases closes : c = ']'
    · subst closes
      have plain : Text.isDigit ']' = false := by decide
      simp [plain, Follows]
    · by_cases digit : grammar.index = .number ∧ Text.isDigit c = true <;> simp [closes, digit]
  | closed => exact continues_cons
  | arrow =>
    rw [step]
    by_cases arrow : c = '>' <;> simp [arrow, Follows]

/-- Nothing has to follow a state exactly where a path may end in it. -/
theorem follows_nil {state : PathState} : grammar.Follows state [] ↔ isFinal state = true := by
  -- Nothing more has to follow where a segment is complete.
  cases state with
  | opening => simp [Follows, derives_iff, IsSegmentName, isFinal]
  | name => exact iff_of_true ⟨[], [], [], List.forall_mem_nil _, .absent, .inl rfl, rfl⟩ rfl
  | bracket => simp [Follows, isFinal]
  | closed => exact iff_of_true (.inl rfl) rfl
  | arrow => simp [Follows, isFinal]

/-- Reading accepts from a state what may follow that state. -/
theorem follows_iff {chars : List Char} : ∀ {state : PathState},
    grammar.Follows state chars ↔ (chars.foldlM grammar.step state).any isFinal = true := by
  -- By induction on the characters, one step of the reading for each.
  induction chars with
  | nil => exact follows_nil
  | cons c chars ih =>
    intro state
    rw [follows_cons, List.foldlM_cons]
    cases grammar.step state c with
    | none => simp
    | some next => simpa using ih

/-- A text is a path where the grammar derives it, up to one line break at its end. -/
theorem isPath_iff {text : String} : grammar.isPath text = true ↔
    ∃ path, grammar.Derives Text.isDigit path ∧ IsLineOf path text := by
  -- The reading passes over one break at the end, which the derivation does not know.
  have derived {path : List Char} :
      grammar.Derives Text.isDigit path ↔ grammar.accepts path = true :=
    show grammar.Follows .opening path ↔ _ from follows_iff
  constructor
  · intro valid
    exact ⟨withoutFinalBreak text.toList, derived.mpr valid,
      Groq.withoutFinalBreak_cases text.toList⟩
  · rintro ⟨path, derives, same | more⟩
    all_goals rw [derived] at derives
    · -- No path ends in a line break, since no step takes one.
      have unbroken : path.getLast? ≠ some '\n' := by
        intro last
        obtain ⟨state, next, stepped⟩ :=
          Groq.exists_step_of_mem derives '\n' (List.mem_of_getLast? last)
        exact absurd (Groq.isBlank_of_step stepped) (by decide)
      rw [isPath, same, withoutFinalBreak, if_neg unbroken]
      exact derives
    · rw [isPath, more, withoutFinalBreak, if_pos List.getLast?_concat, List.dropLast_concat]
      exact derives

end Reading

section Digits

variable {grammar : PathGrammar}

/-- A joint is made of the characters of paths. -/
theorem IsJoint.chars {joint : List Char} (joins : grammar.IsJoint joint) :
    ∀ c ∈ joint, isFieldChar c = true := by
  cases joins <;> simp [isFieldChar]

/-- A name is made of the characters of paths. -/
theorem IsSegmentName.chars {name : List Char} (named : IsSegmentName name) :
    ∀ c ∈ name, isFieldChar c = true := by
  -- The first character is a letter or a stroke, and those may follow as well.
  obtain ⟨head, tail, rfl, opens, goes⟩ := named
  have word {c : Char} (tail : c.isAlphanum = true ∨ c = '_') : isFieldChar c = true := by
    rcases tail with letter | rfl
    · simp [isFieldChar, letter]
    · decide
  refine List.forall_mem_cons.mpr ⟨word (opens.imp_left fun letter => ?_), fun c member =>
    word (goes c member)⟩
  simp [Char.isAlphanum, letter]

/-- What stands behind a name may be told by other digits, if those it has are digits there too. -/
theorem IsIndex.of_digits {digit digit' : Char → Bool} {index : List Char}
    (indexed : grammar.IsIndex digit index)
    (numeric : grammar.index = .number → ∀ c ∈ index, digit c = true → digit' c = true) :
    grammar.IsIndex digit' index := by
  -- The brackets stay, and only what stands between them is looked at.
  cases indexed with
  | absent => exact .absent
  | vacant allowed => exact .vacant allowed
  | number allowed digits =>
    exact .number allowed fun c member => numeric allowed c (by simp [member]) (digits c member)

/-- A path may be told by other digits, if those it has are digits there too. -/
theorem Derives.of_digits {digit digit' : Char → Bool} {path : List Char}
    (derives : grammar.Derives digit path)
    (numeric : grammar.index = .number → ∀ c ∈ path, digit c = true → digit' c = true) :
    grammar.Derives digit' path := by
  -- The digits are looked at in the brackets only, each of which is a part of the path.
  induction derives with
  | segment named indexed =>
    exact .segment named (indexed.of_digits fun allowed c member =>
      numeric allowed c (by simp [member]))
  | joined named indexed joins _ ih =>
    exact .joined named
      (indexed.of_digits fun allowed c member => numeric allowed c (by simp [member])) joins
      (ih fun allowed c member => numeric allowed c (by simp [member]))

/-- A digit of some script lies among the ten from the zero of that script. -/
theorem isDigit_iff {c : Char} : Text.isDigit c = true ↔
    ∃ start ∈ Text.digitZeros, start ≤ c.toNat ∧ c.toNat < start + 10 := by
  simp [Text.isDigit, Text.digitValue?, List.find?_isSome]

/-- The digits from zero to nine are digits of a script. -/
theorem isDigit_of_ascii {c : Char} (digit : c.isDigit = true) : Text.isDigit c = true := by
  obtain ⟨least, most⟩ := Char.isDigit_iff_toNat.mp digit
  exact isDigit_iff.mpr ⟨0x30, by decide, least, Nat.lt_succ_of_le most⟩

/-- The characters of paths are all among the first 128. -/
theorem toNat_lt_of_field {c : Char} (plain : isFieldChar c = true) : c.toNat < 0x80 := by
  -- Letters, digits and the few marks of paths all lie below.
  rcases Bool.or_eq_true_iff.mp plain with word | mark
  · -- The last of the letters and digits is the small `z`.
    have most : c.toNat ≤ 'z'.toNat := by
      rcases Bool.or_eq_true_iff.mp word with letter | digit
      · rcases Bool.or_eq_true_iff.mp letter with upper | lower
        · have large : c.toNat ≤ 'Z'.toNat := (of_decide_eq_true upper).2
          exact Nat.le_trans large (by decide)
        · exact of_decide_eq_true (Bool.and_eq_true_iff.mp lower).2
      · exact Nat.le_trans (Char.isDigit_iff_toNat.mp digit).2 (by decide)
    exact Nat.lt_of_le_of_lt most (by decide)
  · have marks : ∀ mark ∈ ['_', '.', '[', ']', '-', '>'], mark.toNat < 0x80 := by simp
    exact marks c (List.contains_iff_mem.mp mark)

/-- The letters that names are made of are digits of no script, and neither are the marks. -/
theorem isDigit_of_field {c : Char} (digit : Text.isDigit c = true)
    (plain : isFieldChar c = true) : c.isDigit = true := by
  -- The digits of other scripts lie beyond the letters, and so do their zeros.
  have zeros : ∀ start ∈ Text.digitZeros, start = 0x30 ∨ 0x80 ≤ start := by decide
  have small := toNat_lt_of_field plain
  obtain ⟨start, zero, least, most⟩ := isDigit_iff.mp digit
  rcases zeros start zero with rfl | far
  · exact Char.isDigit_iff_toNat.mpr ⟨least, Nat.le_of_lt_succ most⟩
  · omega

/-- The paths with plain digits are made of the characters of paths. -/
theorem Derives.chars {path : List Char} (derives : grammar.Derives Char.isDigit path) :
    ∀ c ∈ path, isFieldChar c = true := by
  -- By induction on the derivation: each segment brings its name, its index and the joint behind
  -- it.
  have behind {index : List Char} (indexed : grammar.IsIndex Char.isDigit index) :
      ∀ c ∈ index, isFieldChar c = true := by
    cases indexed with
    | absent => exact nofun
    | vacant => simp [isFieldChar]
    | number _ digits =>
      intro c member
      simp only [List.cons_append, List.mem_cons, List.mem_append, List.not_mem_nil,
        or_false] at member
      rcases member with rfl | digit | rfl
      · decide
      · simp [isFieldChar, Char.isAlphanum, digits c digit]
      · decide
  induction derives with
  | segment named indexed =>
    exact List.forall_mem_append.mpr ⟨named.chars, behind indexed⟩
  | joined named indexed joins _ ih =>
    exact List.forall_mem_append.mpr ⟨List.forall_mem_append.mpr
      ⟨List.forall_mem_append.mpr ⟨named.chars, behind indexed⟩, joins.chars⟩, ih⟩

/-- The paths with plain digits are what is read as a path and has the characters of paths only. -/
theorem derives_iff_plain {text : String} : grammar.Derives Char.isDigit text.toList ↔
    grammar.isPath text = true ∧ ∀ c ∈ text.toList, isFieldChar c = true := by
  -- A path without a break and without foreign digits is derived by the plain digits.
  constructor
  · intro derives
    have numeral := derives.of_digits fun _ c _ => isDigit_of_ascii (c := c)
    exact ⟨isPath_iff.mpr ⟨_, numeral, .inl rfl⟩, derives.chars⟩
  · rintro ⟨valid, plain⟩
    obtain ⟨path, derives, same | more⟩ := isPath_iff.mp valid
    · rw [← same] at derives
      exact derives.of_digits fun _ c member digit => isDigit_of_field digit (plain c member)
    · -- A line break is none of the characters of paths.
      have broken : '\n' ∈ text.toList := by simp [more]
      exact absurd (plain '\n' broken) (by decide)

/-- Without numbers in brackets, it does not matter which characters count as digits. -/
theorem derives_congr_digit {digit digit' : Char → Bool} (unnumbered : grammar.index ≠ .number)
    {path : List Char} : grammar.Derives digit path ↔ grammar.Derives digit' path :=
  ⟨fun derives => derives.of_digits fun allowed => absurd allowed unnumbered,
    fun derives => derives.of_digits fun allowed => absurd allowed unnumbered⟩

end Digits

end PathGrammar

/-- The field check of Contentful lets a text through, without a notice, exactly if it is a path. -/
theorem Contentful.pathOf?_eq_pure {text role : String} :
    Contentful.pathOf? (.text text) role = pure (some text) ↔
      Contentful.pathGrammar.isPath text = true := by
  unfold Contentful.pathOf?
  by_cases valid : Contentful.pathGrammar.isPath text = true
  · simp [valid]
  · refine iff_of_false (fun same => ?_) valid
    -- Otherwise the check gives no path, in whatever context.
    have empty := congrFun same .empty
    simp only [if_neg valid] at empty
    cases empty

/-- The field checks accept what their grammars derive, with digits of every script and up to a line
break at the end; the same without these two is what they accept among the characters of paths. -/
theorem accepted_paths_derived (text role : String) :
    (Groq.isPath (.text text) = true ↔
      ∃ path, Groq.pathGrammar.Derives Text.isDigit path ∧ PathGrammar.IsLineOf path text) ∧
    (Contentful.pathOf? (.text text) role = pure (some text) ↔
      ∃ path, Contentful.pathGrammar.Derives Char.isDigit path ∧ PathGrammar.IsLineOf path text) ∧
    (Qdrant.pathGrammar.isPath text = true ↔
      ∃ path, Qdrant.pathGrammar.Derives Char.isDigit path ∧ PathGrammar.IsLineOf path text) ∧
    ∀ grammar : PathGrammar, grammar.Derives Char.isDigit text.toList ↔
      grammar.isPath text = true ∧ ∀ c ∈ text.toList, PathGrammar.isFieldChar c = true := by
  -- The grammars differ in their joints and indices; where no number stands in brackets the digits
  -- do not matter.
  refine ⟨PathGrammar.isPath_iff, ?contentful, ?qdrant, fun _ => PathGrammar.derives_iff_plain⟩
  case contentful =>
    rw [Contentful.pathOf?_eq_pure, PathGrammar.isPath_iff]
    exact exists_congr fun path =>
      and_congr_left' (PathGrammar.derives_congr_digit (by decide))
  case qdrant =>
    rw [PathGrammar.isPath_iff]
    exact exists_congr fun path =>
      and_congr_left' (PathGrammar.derives_congr_digit (by decide))

/-- A line break at the end and a digit of another script are accepted, although no path of plain
digits has them. -/
theorem foreign_paths_accepted :
    (Groq.isPath (.text "title\n") = true ∧ Groq.isPath (.text "a[٣]") = true ∧
      ¬ Groq.pathGrammar.Derives Char.isDigit "title\n".toList ∧
      ¬ Groq.pathGrammar.Derives Char.isDigit "a[٣]".toList) ∧
    (Contentful.pathGrammar.isPath "title\n" = true ∧
      ¬ Contentful.pathGrammar.Derives Char.isDigit "title\n".toList) ∧
    Qdrant.pathGrammar.isPath "title\n" = true ∧
      ¬ Qdrant.pathGrammar.Derives Char.isDigit "title\n".toList := by
  -- Both are told from a derived path by one character.
  have broken (grammar : PathGrammar) : ¬ grammar.Derives Char.isDigit "title\n".toList :=
    fun derives => absurd (derives.chars '\n' (by decide)) (by decide)
  have foreign : ¬ Groq.pathGrammar.Derives Char.isDigit "a[٣]".toList :=
    fun derives => absurd (derives.chars '٣' (by decide)) (by decide)
  exact ⟨⟨by decide, by decide, broken _, foreign⟩, ⟨by decide, broken _⟩, by decide, broken _⟩

end ContentQuery
