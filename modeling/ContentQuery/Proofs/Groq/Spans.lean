import ContentQuery.Context
import ContentQuery.FieldPath
import ContentQuery.Proofs.Groq.Reading
import ContentQuery.Text.JsonString

/-! Paths, placeholders and strings stay in the operand of a clause that they stand in. -/

namespace ContentQuery.Groq

/-- Characters of a class that has none of some marks are no marks. -/
theorem not_mem_of_class {marks : List Char} {accepts : Char → Bool}
    (excluded : marks.any accepts = false) {c : Char} (accepted : accepts c = true) :
    c ∉ marks := by
  intro marked
  rw [List.any_eq_true.mpr ⟨c, marked, accepted⟩] at excluded
  exact nomatch excluded

/-- No name opens with a special character. -/
theorem ordinary_nameHead {c : Char} (head : isNameHead c = true) : c ∉ specials :=
  not_mem_of_class (by decide) head

/-- No name goes on with a special character. -/
theorem ordinary_nameTail {c : Char} (tail : isNameTail c = true) : c ∉ specials :=
  not_mem_of_class (by decide) tail

/-- No digit of any script is a special character. -/
theorem ordinary_digit {c : Char} (digit : Text.isDigit c = true) : c ∉ specials :=
  not_mem_of_class (by decide) digit

/-- The letters and the underscore open an operand. -/
theorem isOpening_nameHead {c : Char} (head : isNameHead c = true) : isOpening c = true := by
  -- There are four blanks, and none of them is a letter or the underscore.
  have unblank : isBlank c = false := by
    cases blank : isBlank c with
    | false => rfl
    | true =>
      have which : ((c = ' ' ∨ c = '\t') ∨ c = '\r') ∨ c = '\n' := by
        simpa only [isBlank, Char.isWhitespace, Bool.or_eq_true, decide_eq_true_eq] using blank
      rcases which with ((rfl | rfl) | rfl) | rfl <;> exact absurd head (by decide)
  have unnegated : c ≠ '!' := by
    rintro rfl
    exact absurd head (by decide)
  simp [isOpening, ordinary_nameHead head, unblank, unnegated]

/-- The brackets that are awaited inside a path, besides those awaited around it. -/
def pathAwaited : PathState → List Char → List Char
  | .bracket, awaited => ']' :: awaited
  | _, awaited => awaited

/-- A step along a path puts its character into the operand, and brackets come in pairs. -/
theorem run_path_step {grammar : PathGrammar} {state next : PathState} {c : Char}
    (stepped : grammar.step state c = some next) (awaited : List Char) (level : Level)
    (outer : List Level) (occupied : level.isVacant = false) :
    Reader.step ⟨.plain, pathAwaited state awaited, level :: outer⟩ c =
      some ⟨.plain, pathAwaited next awaited, level.put c :: outer⟩ := by
  -- Dots and arrows join names outside of brackets, and they are ordinary characters.
  have joint : ∀ {next}, grammar.joint c = some next →
      c ∉ specials ∧ pathAwaited next awaited = awaited := by
    intro next joined
    unfold PathGrammar.joint at joined
    split at joined
    · rename_i dot
      cases joined
      exact ⟨by rw [dot]; decide, rfl⟩
    · split at joined
      · rename_i arrow
        cases joined
        have dash : c = '-' := by
          simp only [Bool.and_eq_true, decide_eq_true_eq] at arrow
          exact arrow.1
        exact ⟨by rw [dash]; decide, rfl⟩
      · exact nomatch joined
  -- Only the two brackets are special, and they change what is awaited.
  cases state with
  | opening =>
    simp only [PathGrammar.step] at stepped
    split at stepped
    · rename_i head
      cases stepped
      exact Reader.step_ordinary (ordinary_nameHead head) (Or.inl occupied)
    · exact nomatch stepped
  | name =>
    simp only [PathGrammar.step] at stepped
    split at stepped
    · rename_i tail
      cases stepped
      exact Reader.step_ordinary (ordinary_nameTail tail) (Or.inl occupied)
    · split at stepped
      · rename_i opened
        cases stepped
        obtain rfl : c = '[' := by
          simp only [Bool.and_eq_true, decide_eq_true_eq] at opened
          exact opened.1
        simp [Reader.step, Reader.operate, Reader.absorb, isQuote, closing?, occupied, pathAwaited]
      · obtain ⟨ordinary, same⟩ := joint stepped
        rw [same]
        exact Reader.step_ordinary ordinary (Or.inl occupied)
  | bracket =>
    simp only [PathGrammar.step] at stepped
    split at stepped
    · rename_i closed
      cases stepped
      subst closed
      simp [Reader.step, Reader.absorb, isQuote, closing?, isClosing, pathAwaited]
    · split at stepped
      · rename_i inside
        cases stepped
        have digit : Text.isDigit c = true := by
          simp only [Bool.and_eq_true, decide_eq_true_eq] at inside
          exact inside.2
        exact Reader.step_ordinary (ordinary_digit digit) (Or.inl occupied)
      · exact nomatch stepped
  | closed =>
    simp only [PathGrammar.step] at stepped
    obtain ⟨ordinary, same⟩ := joint stepped
    rw [same]
    exact Reader.step_ordinary ordinary (Or.inl occupied)
  | arrow =>
    simp only [PathGrammar.step] at stepped
    split at stepped
    · rename_i head
      cases stepped
      subst head
      exact Reader.step_ordinary (by decide) (Or.inl occupied)
    · exact nomatch stepped

/-- Going along a path to its end leaves no bracket open. -/
theorem run_path {grammar : PathGrammar} {chars : List Char} {state final : PathState}
    (went : chars.foldlM grammar.step state = some final) (ended : PathGrammar.isFinal final = true)
    (awaited : List Char) (level : Level) (outer : List Level) (occupied : level.isVacant = false) :
    Reader.run ⟨.plain, pathAwaited state awaited, level :: outer⟩ chars =
      some ⟨.plain, awaited, level.putAll chars :: outer⟩ := by
  -- The state of the path tells which brackets are awaited at each character.
  induction chars generalizing state level with
  | nil =>
    obtain rfl : state = final := by simpa using went
    have same : pathAwaited state awaited = awaited := by
      -- A path may end where no bracket is open.
      cases state <;> first | rfl | exact nomatch ended
    rw [same]
    rfl
  | cons c rest ih =>
    rw [List.foldlM_cons] at went
    cases stepped : grammar.step state c with
    | none => simp [stepped] at went
    | some next =>
      rw [stepped] at went
      rw [Reader.run_cons, run_path_step stepped awaited level outer occupied, Option.bind_some,
        ih went (level.put c) (Level.isVacant_put level c), Level.putAll_cons]

/-- A text is what is read of it as a path or name, but for a line break that may end it. -/
theorem withoutFinalBreak_cases (chars : List Char) :
    chars = withoutFinalBreak chars ∨ chars = withoutFinalBreak chars ++ ['\n'] := by
  -- At most one break is taken off.
  unfold withoutFinalBreak
  split
  · rename_i last
    exact Or.inr (List.dropLast_append_getLast? _ last).symm
  · exact Or.inl rfl

/-- A path opens an operand and stays in it. -/
theorem opens_path {grammar : PathGrammar} {path : String} (valid : grammar.isPath path = true) :
    Opens path.toList := by
  -- The first character of a path is the head of a name, with which an operand can open.
  have opened : Opens (withoutFinalBreak path.toList) := by
    unfold PathGrammar.isPath PathGrammar.accepts at valid
    cases chars : withoutFinalBreak path.toList with
    | nil => simp [chars, PathGrammar.isFinal] at valid
    | cons first rest =>
      rw [chars, List.foldlM_cons] at valid
      simp only [PathGrammar.step] at valid
      split at valid
      · rename_i head
        obtain ⟨final, went, ended⟩ := (Option.any_eq_true _ _).mp valid
        exact ⟨first, rest, rfl, isOpening_nameHead head, fun awaited level outer occupied =>
          run_path went ended awaited level outer occupied⟩
      · simp at valid
  -- A line break that ends the text is an ordinary character behind the path.
  rcases withoutFinalBreak_cases path.toList with same | more
  · rw [same]
    exact opened
  · rw [more]
    exact opened.append (spans_of_words (by decide))

/-- A number is written in decimal digits. -/
theorem isDigit_of_mem_toString {number : Nat} {c : Char} (member : c ∈ (toString number).toList) :
    c.isDigit = true := by
  rw [show toString number = number.repr from rfl, Nat.toList_repr] at member
  exact Nat.isDigit_of_mem_toDigits (by decide) (by decide) member

/-- The reference to a placeholder opens an operand and stays in it. -/
theorem opens_slotReference (slot : Nat) : Opens (Context.slotReference slot).toList := by
  -- The decimal digits of a slot are as ordinary as the letter in front of them.
  have digits : ∀ c ∈ (toString slot).toList, c ∉ specials := by
    intro c member
    have excluded : specials.any Char.isDigit = false := by decide
    exact not_mem_of_class excluded (isDigit_of_mem_toString member)
  refine ⟨'$', 'p' :: (toString slot).toList, ?_, by decide, spans_of_ordinary ?_⟩
  · simp [Context.slotReference, Context.slotName]
  · intro c member
    rcases List.mem_cons.mp member with rfl | later
    · decide
    · exact digits c later

/-- Characters that stay between the double quotes they stand in: no quote that is not escaped. -/
inductive Quotable : List Char → Prop
  | nil : Quotable []
  | plain {c : Char} {rest : List Char} (unquoted : c ≠ '"') (unescaped : c ≠ '\\')
    (more : Quotable rest) : Quotable (c :: rest)
  /-- A backslash takes the meaning of the next character. -/
  | escaped (c : Char) {rest : List Char} (more : Quotable rest) : Quotable ('\\' :: c :: rest)

/-- Characters in a row stay between the quotes where both parts do. -/
theorem Quotable.append {first second : List Char} (left : Quotable first)
    (right : Quotable second) : Quotable (first ++ second) := by
  -- By induction on the first text.
  induction left with
  | nil => exact right
  | plain unquoted unescaped _ ih => exact .plain unquoted unescaped ih
  | escaped c _ ih => exact .escaped c ih

/-- Characters other than the double quote and the backslash stay where they are. -/
theorem quotable_of_plain {chars : List Char} (plain : ∀ c ∈ chars, c ≠ '"' ∧ c ≠ '\\') :
    Quotable chars := by
  -- By induction on the characters, none of which has to be escaped.
  induction chars with
  | nil => exact .nil
  | cons c rest ih =>
    obtain ⟨unquoted, unescaped⟩ := plain c (by simp)
    exact .plain unquoted unescaped (ih fun d member => plain d (by simp [member]))

/-- No hexadecimal digit ends a string. -/
theorem hexDigit_plain {value : Nat} (small : value < 16) :
    Text.hexDigit value ≠ '"' ∧ Text.hexDigit value ≠ '\\' := by
  have every : ∀ value < 16, Text.hexDigit value ≠ '"' ∧ Text.hexDigit value ≠ '\\' := by decide
  exact every value small

/-- Neither do several hexadecimal digits. -/
theorem hexDigits_plain (width value : Nat) :
    ∀ c ∈ Text.hexDigits width value, c ≠ '"' ∧ c ≠ '\\' := by
  -- Digits are written from the last to the first, so that the last one is split off.
  induction width generalizing value with
  | zero => simp [Text.hexDigits]
  | succ width ih =>
    intro c member
    rcases List.mem_append.mp member with earlier | last
    · exact ih _ c earlier
    · rw [List.mem_singleton.mp last]
      exact hexDigit_plain (Nat.mod_lt _ (by decide))

/-- The escape of a unit stays between the quotes. -/
theorem quotable_unitEscape (unit : Nat) : Quotable (Text.unitEscape unit) :=
  .escaped 'u' (quotable_of_plain (hexDigits_plain 4 unit))

/-- Whatever a character is, a string goes on behind it. -/
theorem quotable_jsonChar (c : Char) : Quotable (Text.jsonChar c) := by
  unfold Text.jsonChar
  -- What is not escaped is neither a quote nor a backslash, by the first test.
  split
  · exact .escaped c .nil
  · rename_i unescaped
    have plain : ∀ d ∈ [c], d ≠ '"' ∧ d ≠ '\\' := by
      simpa using unescaped
    repeat' split
    all_goals first | exact .escaped _ .nil | exact quotable_of_plain plain | skip
    -- Any other character is written as one unit, or as a pair of them.
    unfold Text.jsonEscape
    split
    · exact quotable_unitEscape _
    · exact (quotable_unitEscape _).append (quotable_unitEscape _)

/-- What is written for the characters of a text stays between the quotes. -/
theorem quotable_jsonChars (chars : List Char) : Quotable (chars.flatMap Text.jsonChar) := by
  induction chars with
  | nil => exact .nil
  | cons c rest ih => exact (quotable_jsonChar c).append ih

/-- What stays between the quotes is taken over as part of the operand. -/
theorem run_quotable {chars : List Char} (quotable : Quotable chars) (awaited : List Char)
    (level : Level) (outer : List Level) :
    Reader.run ⟨.quoted '"', awaited, level :: outer⟩ chars =
      some ⟨.quoted '"', awaited, level.putAll chars :: outer⟩ := by
  -- By induction on the quoted text: within the quotes no character opens or closes anything.
  induction quotable generalizing level with
  | nil => rfl
  | @plain c rest unquoted unescaped _ ih =>
    have stepped : Reader.step ⟨.quoted '"', awaited, level :: outer⟩ c =
        some ⟨.quoted '"', awaited, level.put c :: outer⟩ := by
      simp [Reader.step, unquoted, unescaped]
    rw [Reader.run_cons, stepped, Option.bind_some, ih, Level.putAll_cons]
  | @escaped c rest _ ih =>
    have opened : Reader.step ⟨.quoted '"', awaited, level :: outer⟩ '\\' =
        some ⟨.escaped '"', awaited, level.put '\\' :: outer⟩ := by
      simp [Reader.step]
    have stepped (reached : Level) : Reader.step ⟨.escaped '"', awaited, reached :: outer⟩ c =
        some ⟨.quoted '"', awaited, reached.put c :: outer⟩ := rfl
    rw [Reader.run_cons, opened, Option.bind_some, Reader.run_cons, stepped, Option.bind_some, ih,
      Level.putAll_cons, Level.putAll_cons]

/-- A JSON string is its escaped characters between double quotes. -/
theorem toList_jsonString (text : String) : (Text.jsonString text).toList =
    '"' :: (text.toList.flatMap Text.jsonChar ++ ['"']) := by
  simp [Text.jsonString]

/-- A JSON string is a span, whatever it holds. -/
theorem spans_jsonString (text : String) : Spans (Text.jsonString text).toList := by
  intro awaited level outer occupied
  have opened : Reader.step ⟨.plain, awaited, level :: outer⟩ '"' =
      some ⟨.quoted '"', awaited, level.put '"' :: outer⟩ := by
    simp [Reader.step, isQuote]
  have closed : ∀ reached : Level, Reader.step ⟨.quoted '"', awaited, reached :: outer⟩ '"' =
      some ⟨.plain, awaited, reached.put '"' :: outer⟩ := by
    intro reached
    simp [Reader.step]
  -- What is written for the characters stays between the quotes.
  rw [toList_jsonString, Reader.run_cons, opened, Option.bind_some, Reader.run_append,
    run_quotable (quotable_jsonChars _)]
  simp [closed, Level.putAll, Level.put]

/-- Spans with a span between each two of them are a span. -/
theorem spans_intercalate {separator : List Char} (between : Spans separator)
    {parts : List (List Char)} (spans : ∀ part ∈ parts, Spans part) :
    Spans (separator.intercalate parts) := by
  -- A separator stands behind every part but the last.
  induction parts with
  | nil => exact spans_nil
  | cons first rest ih =>
    cases rest with
    | nil => simpa using spans first (by simp)
    | cons second more =>
      rw [List.intercalate_cons_cons]
      exact ((spans first (by simp)).append between).append
        (ih fun part member => spans part (by simp [member]))

/-- A JSON array of strings is a span. -/
theorem spans_jsonStrings (texts : List String) : Spans (Text.jsonStrings texts).toList := by
  -- Quoted texts between brackets, with a comma and a blank between them.
  have written : (Text.jsonStrings texts).toList =
      '[' ::
        (", ".toList.intercalate ((texts.map Text.jsonString).map String.toList) ++ [']']) := by
    simp [Text.jsonStrings]
  rw [written]
  refine (spans_intercalate (spans_of_words (by decide)) ?_).bracketed rfl
  intro part member
  obtain ⟨string, made, rfl⟩ := List.mem_map.mp member
  obtain ⟨text, -, rfl⟩ := List.mem_map.mp made
  exact spans_jsonString text

end ContentQuery.Groq
