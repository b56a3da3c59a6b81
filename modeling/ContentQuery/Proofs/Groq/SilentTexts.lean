import ContentQuery.Groq.Statement
import ContentQuery.Proofs.Groq.References

/-! Paths, names, numbers and JSON texts refer to no placeholder. -/

namespace ContentQuery.Groq

/-- Whether a character may stand in a path, a name or the name of a function. -/
def isPathChar (c : Char) : Bool :=
  isNameHead c || isNameTail c || Text.isDigit c ||
    ['.', '-', '>', '[', ']', ':', '\n'].contains c

/-- Whether a character may stand in the decimal notation of a number. -/
def isNumeralChar (c : Char) : Bool :=
  c.isDigit || ['.', '-', '+', 'e'].contains c

/-- Characters of paths and names are silent. -/
theorem silent_of_pathChars {chars : List Char} (accepted : ∀ c ∈ chars, isPathChar c = true) :
    Silent chars :=
  silent_of_unmarked fun c member => not_mem_of_class (by decide) (accepted c member)

/-- Characters of numbers are silent. -/
theorem silent_of_numeralChars {chars : List Char}
    (accepted : ∀ c ∈ chars, isNumeralChar c = true) : Silent chars :=
  silent_of_unmarked fun c member => not_mem_of_class (by decide) (accepted c member)

section Names

/-- A text has characters of paths where what is read of it as a path or name has them. -/
theorem pathChars_of_withoutFinalBreak {text : String}
    (accepted : ∀ c ∈ withoutFinalBreak text.toList, isPathChar c = true) :
    ∀ c ∈ text.toList, isPathChar c = true := by
  -- The break at the end is itself a character that a path may hold.
  intro c member
  rcases withoutFinalBreak_cases text.toList with same | more
  · rw [same] at member
    exact accepted c member
  · rw [more] at member
    rcases List.mem_append.mp member with inside | last
    · exact accepted c inside
    · rw [List.mem_singleton.mp last]
      decide

/-- A character that a path takes is one of paths. -/
theorem isPathChar_of_step {grammar : PathGrammar} {state next : PathState} {c : Char}
    (stepped : grammar.step state c = some next) : isPathChar c = true := by
  cases state <;> simp only [PathGrammar.step, PathGrammar.joint] at stepped <;>
    (repeat' split at stepped) <;> simp_all [isPathChar]

/-- Each character of a path was taken by a step. -/
theorem exists_step_of_mem {grammar : PathGrammar} {chars : List Char}
    (valid : grammar.accepts chars = true) :
    ∀ c ∈ chars, ∃ state next, grammar.step state c = some next := by
  -- By induction on the characters, along the states of the reading.
  obtain ⟨final, went, -⟩ := (Option.any_eq_true _ _).mp valid
  clear valid
  generalize PathState.opening = state at went
  induction chars generalizing state with
  | nil => exact nofun
  | cons c rest ih =>
    rw [List.foldlM_cons] at went
    obtain ⟨next, stepped, went⟩ := Option.bind_eq_some_iff.mp went
    exact List.forall_mem_cons.mpr ⟨⟨state, next, stepped⟩, ih next went⟩

/-- A path has characters of paths. -/
theorem pathChars_path {grammar : PathGrammar} {path : String}
    (valid : grammar.isPath path = true) : ∀ c ∈ path.toList, isPathChar c = true := by
  refine pathChars_of_withoutFinalBreak fun c member => ?_
  obtain ⟨state, next, stepped⟩ := exists_step_of_mem valid c member
  exact isPathChar_of_step stepped

/-- A path is silent. -/
theorem silent_path {grammar : PathGrammar} {path : String} (valid : grammar.isPath path = true) :
    Silent path.toList :=
  silent_of_pathChars (pathChars_path valid)

/-- The characters of one name are those of paths. -/
theorem isPathChar_of_isNameChars {chars : List Char} (valid : isNameChars chars = true) :
    ∀ c ∈ chars, isPathChar c = true := by
  -- The first character of a name is a special case of the others.
  cases chars with
  | nil => exact nofun
  | cons head tail =>
    obtain ⟨opens, goes⟩ := Bool.and_eq_true_iff.mp valid
    refine List.forall_mem_cons.mpr ⟨by simp [isPathChar, opens], fun c member => ?_⟩
    simp [isPathChar, List.all_eq_true.mp goes c member]

/-- A name has characters of paths. -/
theorem pathChars_name {name : String} (valid : isName name = true) :
    ∀ c ∈ name.toList, isPathChar c = true :=
  pathChars_of_withoutFinalBreak (isPathChar_of_isNameChars valid)

/-- A name is silent. -/
theorem silent_name {name : String} (valid : isName name = true) : Silent name.toList :=
  silent_of_pathChars (pathChars_name valid)

/-- The name of a function has characters of paths, with its namespace. -/
theorem pathChars_functionName {name : String} (valid : isFunctionName name = true) :
    ∀ c ∈ name.toList, isPathChar c = true := by
  -- A name, or two of them with two colons between; all of these are characters of paths.
  refine pathChars_of_withoutFinalBreak fun c member => ?_
  obtain ⟨front, back⟩ := Bool.and_eq_true_iff.mp valid
  have parts : withoutFinalBreak name.toList =
      (withoutFinalBreak name.toList).takeWhile (· != ':') ++
        (withoutFinalBreak name.toList).dropWhile (· != ':') :=
    List.takeWhile_append_dropWhile.symm
  rw [parts] at member
  rcases List.mem_append.mp member with before | behind
  · exact isPathChar_of_isNameChars front c before
  · split at back
    · rename_i none_
      rw [none_] at behind
      exact nomatch behind
    · rename_i name split_
      rw [split_] at behind
      rcases behind with _ | ⟨_, _ | ⟨_, inside⟩⟩
      · decide
      · decide
      · exact isPathChar_of_isNameChars back c inside
    · exact nomatch back

/-- The name of a function is silent. -/
theorem silent_functionName {name : String} (valid : isFunctionName name = true) :
    Silent name.toList :=
  silent_of_pathChars (pathChars_functionName valid)

end Names

section Numbers

/-- A natural number is silent. -/
theorem silent_natural (number : Nat) : Silent (toString number).toList :=
  silent_of_numeralChars fun c member => by
    simp [isNumeralChar, isDigit_of_mem_toString member]

/-- An integer is silent. -/
theorem silent_integer (number : Int) : Silent (toString number).toList := by
  cases number with
  | ofNat number => exact silent_natural number
  | negSucc number =>
    -- A negative integer is a sign and a natural number.
    have written : (toString (Int.negSucc number)).toList =
        ['-'] ++ (toString (number + 1)).toList := by
      show ("-" ++ toString (number + 1)).toList = _
      rw [String.toList_append]
      rfl
    rw [written]
    exact (silent_words (by decide)).append (silent_natural _)

/-- The digits of a number are characters of numbers. -/
theorem numeral_toDigits (number : Nat) : ∀ c ∈ Nat.toDigits 10 number, isNumeralChar c = true := by
  intro c member
  have digit : c.isDigit = true := Nat.isDigit_of_mem_toDigits (by decide) (by decide) member
  simp [isNumeralChar, digit]

section Digits

variable {digits : List Char} (each : ∀ c ∈ digits, isNumeralChar c = true)
include each

/-- Digits with a point, and with zeros filled up, are characters of numbers. -/
theorem numeral_pointAfter (whole : Int) :
    ∀ c ∈ Binary64.pointAfter digits whole, isNumeralChar c = true := by
  have zero : isNumeralChar '0' = true := by decide
  have point : isNumeralChar '.' = true := by decide
  unfold Binary64.pointAfter
  split
  -- The point stands in front of all digits, with zeros between them.
  · simp only [List.cons_append, List.forall_mem_cons, List.forall_mem_append]
    exact ⟨zero, point, fun c filled => List.eq_of_mem_replicate filled ▸ zero, each⟩
  -- The point stands among the digits, or behind them and the zeros that are missing.
  · simp only [List.forall_mem_cons, List.forall_mem_append]
    refine ⟨⟨fun c member => each c (List.mem_of_mem_take member),
      fun c filled => List.eq_of_mem_replicate filled ▸ zero⟩, point, ?_⟩
    split
    · exact List.forall_mem_cons.mpr ⟨zero, nofun⟩
    · exact fun c member => each c (List.mem_of_mem_drop member)

/-- Digits with a power of ten are characters of numbers. -/
theorem numeral_withExponent (leading : Int) :
    ∀ c ∈ Binary64.withExponent digits leading, isNumeralChar c = true := by
  -- A digit, a point, the other digits, and the power with its sign.
  have power := numeral_toDigits leading.natAbs
  unfold Binary64.withExponent
  dsimp only
  simp only [List.forall_mem_append, List.forall_mem_cons]
  refine ⟨?_, by decide, by split <;> decide, ?_⟩
  · split
    · simp only [List.forall_mem_cons] at each ⊢
      exact ⟨each.1, by decide, each.2⟩
    · exact each
  · split
    · exact List.forall_mem_cons.mpr ⟨by decide, power⟩
    · exact power

end Digits

/-- A magnitude is written in characters of numbers. -/
theorem numeral_magnitude (significand : Nat) (exponent : Int) :
    ∀ c ∈ Binary64.magnitudeChars significand exponent, isNumeralChar c = true := by
  -- Zeros at the end of the digits are left out.
  have trimmed (all : List Char) (each : ∀ c ∈ all, isNumeralChar c = true) :
      ∀ c ∈ (all.reverse.dropWhile (· == '0')).reverse, isNumeralChar c = true := by
    intro c member
    have among := (List.dropWhile_sublist _).subset (List.mem_reverse.mp member)
    exact each c (List.mem_reverse.mp among)
  unfold Binary64.magnitudeChars
  split
  · simp [isNumeralChar]
  · have digits := trimmed _ (numeral_toDigits (Binary64.shortest significand exponent).1)
    dsimp only
    split
    · exact numeral_pointAfter digits _
    · exact numeral_withExponent digits _

/-- A floating-point number in JSON is silent. -/
theorem silent_jsonNumber (number : Binary64) : Silent (Value.jsonNumber number).toList := by
  -- A float is written as a numeral, or as one of three words.
  cases number with
  | nan => exact silent_words (by decide)
  | infinite negative => cases negative <;> exact silent_words (by decide)
  | finite negative significand exponent canonical =>
    have magnitude := numeral_magnitude significand exponent
    unfold Value.jsonNumber Binary64.text
    rw [String.toList_ofList]
    refine silent_of_numeralChars ?_
    split
    · exact List.forall_mem_cons.mpr ⟨by decide, magnitude⟩
    · exact magnitude

end Numbers

section Json

/-- A truth value in JSON is silent. -/
theorem silent_jsonFlag (value : Bool) : Silent (Value.jsonFlag value).toList := by
  cases value <;> exact silent_words (by decide)

/-- Silent parts with silent separators are silent. -/
theorem silent_intercalate {separator : List Char} (between : Silent separator)
    {parts : List (List Char)} (silent : ∀ part ∈ parts, Silent part) :
    Silent (separator.intercalate parts) := by
  -- By induction on the parts, between which the separator stands.
  induction parts with
  | nil => exact fun _ => rfl
  | cons first rest ih =>
    obtain ⟨here, later⟩ := List.forall_mem_cons.mp silent
    cases rest with
    | nil => simpa using here
    | cons second more =>
      rw [List.intercalate_cons_cons]
      exact (here.append between).append (ih later)

/-- Silent texts between brackets, with commas between each two of them, are silent. -/
theorem silent_bracketed {opening closing : String} {parts : List String}
    (opens : Silent opening.toList) (closes : Silent closing.toList)
    (silent : ∀ part ∈ parts, Silent part.toList) :
    Silent (opening ++ ", ".intercalate parts ++ closing).toList := by
  rw [String.toList_append, String.toList_append, String.toList_intercalate]
  -- A comma and a blank are silent by themselves.
  refine (opens.append (silent_intercalate (silent_words (by decide)) ?_)).append closes
  intro chars member
  obtain ⟨part, among, rfl⟩ := List.mem_map.mp member
  exact silent part among

-- By induction on the value: strings are silent whatever they hold, and brackets and commas are.
mutual

/-- The JSON text of a value is silent. -/
theorem silent_jsonText (value : Value) {text : String} (written : value.jsonText? = some text) :
    Silent text.toList := by
  -- By induction on the value. A text is quoted, and within quotes nothing refers; everything else
  -- is words, numerals and brackets.
  cases value with
  | null =>
    cases written
    exact silent_words (by decide)
  | bool value =>
    cases written
    exact silent_jsonFlag value
  | int value =>
    cases written
    exact silent_integer value
  | float value =>
    cases written
    exact silent_jsonNumber value
  | text value =>
    cases written
    exact silent_jsonString value
  | list items | tuple items =>
    obtain ⟨texts, made, same⟩ := Option.bind_eq_some_iff.mp written
    cases same
    exact silent_bracketed (silent_words (by decide)) (silent_words (by decide))
      (silent_jsonTexts items made)
  | map entries =>
    obtain ⟨texts, made, same⟩ := Option.bind_eq_some_iff.mp written
    cases same
    exact silent_bracketed (silent_words (by decide)) (silent_words (by decide))
      (silent_jsonMembers entries made)
  | _ => exact nomatch written
termination_by structural value

/-- The JSON texts of values are silent. -/
theorem silent_jsonTexts (values : List Value) {texts : List String}
    (written : Value.jsonTexts? values = some texts) : ∀ text ∈ texts, Silent text.toList := by
  -- By induction on the items.
  match values with
  | [] =>
    cases written
    exact nofun
  | item :: rest =>
    obtain ⟨text, first, written⟩ := Option.bind_eq_some_iff.mp written
    obtain ⟨others, later, same⟩ := Option.bind_eq_some_iff.mp written
    cases same
    exact List.forall_mem_cons.mpr ⟨silent_jsonText item first, silent_jsonTexts rest later⟩
termination_by structural values

/-- The JSON texts of entries are silent. -/
theorem silent_jsonMembers (entries : List (Value × Value)) {texts : List String}
    (written : Value.jsonMembers? entries = some texts) : ∀ text ∈ texts, Silent text.toList := by
  -- By induction on the entries: a name in quotes, a colon and a value.
  match entries with
  | [] =>
    cases written
    exact nofun
  | (key, value) :: rest =>
    obtain ⟨name, named, written⟩ := Option.bind_eq_some_iff.mp written
    obtain ⟨text, first, written⟩ := Option.bind_eq_some_iff.mp written
    obtain ⟨others, later, same⟩ := Option.bind_eq_some_iff.mp written
    cases same
    refine List.forall_mem_cons.mpr ⟨?_, silent_jsonMembers rest later⟩
    rw [String.toList_append, String.toList_append]
    exact ((silent_jsonString name).append (silent_words (by decide))).append
      (silent_jsonText value first)
termination_by structural entries

end

end Json

end ContentQuery.Groq
