import ContentQuery.Text.JsonString
import Mathlib.Algebra.Group.Nat.Defs
import Mathlib.Tactic.SplitIfs

/-!
JSON strings read back: each is read as the text it was written for, whatever follows it, and so is
an array of them.
-/

namespace ContentQuery.Text

/-- The value of hexadecimal digits, if all characters are ones. -/
def hexNumber? (digits : List Char) : Option Nat :=
  digits.foldlM (fun value c => (hexValue? c).map (16 * value + ·)) 0

/-- The unit that one character behind a backslash stands for. -/
def escapedUnit? (c : Char) : Option Nat :=
  [('"', 0x22), ('\\', 0x5C), ('/', 0x2F), ('b', 0x08), ('f', 0x0C), ('n', 0x0A), ('r', 0x0D),
    ('t', 0x09)].lookup c

/-- Reads the units of a string behind its opening quote, and what follows the closing one. -/
def readUnits : List Char → Option (List Nat × List Char)
  | [] => none
  | '"' :: rest => some ([], rest)
  | '\\' :: 'u' :: first :: second :: third :: fourth :: rest => do
    let unit ← hexNumber? [first, second, third, fourth]
    let (units, behind) ← readUnits rest
    return (unit :: units, behind)
  | '\\' :: c :: rest => do
    let unit ← escapedUnit? c
    let (units, behind) ← readUnits rest
    return (unit :: units, behind)
  | c :: rest => do
    -- Control characters have to be escaped.
    if c.toNat < 0x20 then none
    else
      let (units, behind) ← readUnits rest
      return (c.toNat :: units, behind)

/-- The character with a code, if there is one. -/
def charOf? (code : Nat) : Option Char :=
  if code.isValidChar then some (Char.ofNat code) else none

/-- The characters that units name, where two units may stand for one character. -/
def joinUnits : List Nat → Option (List Char)
  | [] => some []
  | [unit] => return [← charOf? unit]
  | high :: low :: rest =>
    if 0xD800 ≤ high ∧ high < 0xDC00 ∧ 0xDC00 ≤ low ∧ low < 0xE000 then
      return (← charOf? (0x10000 + (high - 0xD800) * 0x400 + (low - 0xDC00))) ::
        (← joinUnits rest)
    else return (← charOf? high) :: (← joinUnits (low :: rest))

/-- Reads the string that characters open with, and what follows it. -/
def readString : List Char → Option (String × List Char)
  | '"' :: rest => do
    let (units, behind) ← readUnits rest
    return (String.ofList (← joinUnits units), behind)
  | _ => none

section Digits

/-- A hexadecimal digit has the value that it was written for. -/
theorem hexValue_hexDigit {value : Nat} (small : value < 16) :
    hexValue? (hexDigit value) = some value := by
  rcases value with _ | _ | _ | _ | _ | _ | _ | _ | _ | _ | _ | _ | _ | _ | _ | _ | value
  all_goals first | rfl | omega

/-- Hexadecimal digits have the value that they were written for, as far as it fits. -/
theorem hexNumber_hexDigits (width value : Nat) :
    hexNumber? (hexDigits width value) = some (value % 16 ^ width) := by
  -- Digits are written from the last to the first, and read from the first to the last.
  induction width generalizing value with
  | zero => simp [hexNumber?, hexDigits, Nat.mod_one]
  | succ width ih =>
    have earlier := ih (value / 16)
    unfold hexNumber? at earlier ⊢
    rw [hexDigits, List.foldlM_append, earlier]
    have joined : 16 * (value / 16 % 16 ^ width) + value % 16 = value % 16 ^ (width + 1) := by
      rw [Nat.pow_succ, Nat.mul_comm (16 ^ width) 16, Nat.mod_mul]
      omega
    simp [hexValue_hexDigit (Nat.mod_lt value (by decide)), joined]

end Digits

/-- The units that a character is written in. -/
def unitsOf (c : Char) : List Nat :=
  if c.toNat < 0x10000 then [c.toNat]
  else [0xD800 + (c.toNat - 0x10000) / 0x400, 0xDC00 + (c.toNat - 0x10000) % 0x400]

/-- Characters are read as units where whatever follows them is read behind these. -/
def ReadsUnits (chars : List Char) (units : List Nat) : Prop :=
  ∀ rest, readUnits (chars ++ rest) =
    (readUnits rest).map fun (others, behind) => (units ++ others, behind)

namespace ReadsUnits

/-- What two parts are read as stands in a row. -/
theorem append {first second : List Char} {units units' : List Nat}
    (left : ReadsUnits first units) (right : ReadsUnits second units') :
    ReadsUnits (first ++ second) (units ++ units') := by
  intro rest
  rw [List.append_assoc, left, right, Option.map_map]
  simp [Function.comp_def]

/-- An escape of one character is read as its unit. -/
theorem escaped {c : Char} {unit : Nat} (stands : escapedUnit? c = some unit) (other : c ≠ 'u') :
    ReadsUnits ['\\', c] [unit] := by
  intro rest
  simp only [List.cons_append, List.nil_append]
  rw [readUnits]
  · rw [stands]
    cases readUnits rest <;> rfl
  -- Only the letter of an escape in digits would be read in another way.
  · rintro _ _ _ _ _ rfl _
    exact other rfl

/-- A character that stands for itself is read as its code. -/
theorem plain {c : Char} (unquoted : c ≠ '"') (unescaped : c ≠ '\\') (printable : 0x20 ≤ c.toNat) :
    ReadsUnits [c] [c.toNat] := by
  -- A character that is neither a mark nor a control stands for itself.
  intro rest
  rw [List.singleton_append, readUnits]
  · rw [if_neg (by omega)]
    cases readUnits rest <;> rfl
  · exact fun same => unquoted same
  · exact fun _ _ _ _ _ same => absurd same unescaped
  · exact fun _ _ same => absurd same unescaped

/-- An escape in four digits is read as its unit. -/
theorem unitEscape {unit : Nat} (small : unit < 0x10000) :
    ReadsUnits (unitEscape unit) [unit] := by
  -- The four digits are read back as the unit.
  intro rest
  have digits : hexNumber? (hexDigits 4 unit) = some unit :=
    (hexNumber_hexDigits 4 unit).trans (congrArg some (Nat.mod_eq_of_lt small))
  simp only [hexDigits, List.nil_append, List.cons_append] at digits
  simp only [Text.unitEscape, hexDigits, List.nil_append, List.cons_append, readUnits, digits]
  cases readUnits rest <;> rfl

end ReadsUnits

/-- The code of a character is in range, and it is no half of a pair. -/
theorem toNat_bounds (c : Char) : c.toNat < 0x110000 ∧ (c.toNat < 0xD800 ∨ 0xDFFF < c.toNat) := by
  -- A character carries the proof that its code is one.
  have valid : c.toNat < 0xD800 ∨ 0xDFFF < c.toNat ∧ c.toNat < 0x110000 := c.valid
  omega

/-- Every code of a character is that of the character. -/
theorem charOf_toNat (c : Char) : charOf? c.toNat = some c := by
  have valid : c.toNat.isValidChar := c.valid
  rw [charOf?, if_pos valid, Char.ofNat_toNat]

/-- What is written for a character is read as its units. -/
theorem readsUnits_jsonChar (c : Char) : ReadsUnits (jsonChar c) (unitsOf c) := by
  have small (low : c.toNat < 0x10000) : unitsOf c = [c.toNat] := if_pos low
  -- An escape of one letter stands for a character that is known.
  have letter {code : Nat} {e : Char} (known : c.toNat = code) (low : code < 0x10000)
      (stands : escapedUnit? e = some code) (other : e ≠ 'u') :
      ReadsUnits ['\\', e] (unitsOf c) := by
    rw [small (by omega), known]
    exact .escaped stands other
  unfold jsonChar
  split_ifs with special newline return_ tab backspace feed printable
  · rcases Bool.or_eq_true_iff.mp special with quote | backslash
    · obtain rfl := eq_of_beq quote
      exact .escaped rfl (by decide)
    · obtain rfl := eq_of_beq backslash
      exact .escaped rfl (by decide)
  · exact letter (congrArg Char.toNat (eq_of_beq newline)) (by decide) rfl (by decide)
  · exact letter (congrArg Char.toNat (eq_of_beq return_)) (by decide) rfl (by decide)
  · exact letter (congrArg Char.toNat (eq_of_beq tab)) (by decide) rfl (by decide)
  · exact letter (eq_of_beq backspace) (by decide) rfl (by decide)
  · exact letter (eq_of_beq feed) (by decide) rfl (by decide)
  · obtain ⟨low, high⟩ : 0x20 ≤ c.toNat ∧ c.toNat < 0x7F := by simpa using printable
    obtain ⟨unquoted, unescaped⟩ : c ≠ '"' ∧ c ≠ '\\' := by simpa using special
    rw [small (by omega)]
    exact .plain unquoted unescaped low
  · -- Everything else is escaped by its one or two units.
    have bounds := toNat_bounds c
    unfold jsonEscape
    split_ifs with low
    · rw [small low]
      exact .unitEscape low
    · rw [unitsOf, if_neg low]
      exact (ReadsUnits.unitEscape (by omega)).append (.unitEscape (by omega))

/-- The units of a character name it in front of whatever other units name. -/
theorem joinUnits_append (c : Char) (units : List Nat) :
    joinUnits (unitsOf c ++ units) = (joinUnits units).map (c :: ·) := by
  have named := charOf_toNat c
  have bounds := toNat_bounds c
  unfold unitsOf
  split_ifs with low
  · cases units with
    | nil => simp [joinUnits, named]
    -- A unit that is a character by itself is no first half of a pair.
    | cons unit others =>
      rw [List.singleton_append, joinUnits, if_neg (by omega), named]
      cases joinUnits (unit :: others) <;> rfl
  -- The halves of a pair hold the quotient and the remainder of what is above the first plane.
  · have joined : 0x10000 + (0xD800 + (c.toNat - 0x10000) / 0x400 - 0xD800) * 0x400 +
        (0xDC00 + (c.toNat - 0x10000) % 0x400 - 0xDC00) = c.toNat := by omega
    rw [List.cons_append, List.singleton_append, joinUnits, if_pos (by omega), joined, named]
    cases joinUnits units <;> rfl

/-- What is written for the characters of a text is read as their units. -/
theorem readsUnits_jsonChars (chars : List Char) :
    ReadsUnits (chars.flatMap jsonChar) (chars.flatMap unitsOf) := by
  -- By induction on the characters, each of which has its own units.
  induction chars with
  | nil =>
    intro rest
    cases h : readUnits rest <;> simp [h]
  | cons c rest ih => exact (readsUnits_jsonChar c).append ih

/-- The units of a text name its characters. -/
theorem joinUnits_unitsOf (chars : List Char) : joinUnits (chars.flatMap unitsOf) = some chars := by
  induction chars with
  | nil => rfl
  | cons c rest ih => rw [List.flatMap_cons, joinUnits_append, ih, Option.map_some]

/-- A JSON string is read as the text it was written for, whatever follows it. -/
theorem readString_jsonString (text : String) (rest : List Char) :
    readString ((jsonString text).toList ++ rest) = some (text, rest) := by
  have written : (jsonString text).toList ++ rest =
      '"' :: (text.toList.flatMap jsonChar ++ '"' :: rest) := by
    simp [jsonString]
  -- The closing quote ends the units, since those of the text escape their own.
  have closed : readUnits ('"' :: rest) = some ([], rest) := rfl
  rw [written, readString, readsUnits_jsonChars, closed]
  simp [joinUnits_unitsOf]

/-- The characters behind the blanks that JSON allows between its tokens. -/
def skipBlanks (chars : List Char) : List Char :=
  chars.dropWhile [' ', '\t', '\n', '\r'].contains

/-- Reads the strings of an array from one of them up to the closing bracket. -/
def readItems (chars : List Char) : Option (List String × List Char) := do
  let (first, behind) ← readString chars
  match skipBlanks behind with
  | ']' :: rest => return ([first], rest)
  | ',' :: rest =>
    -- A string has its quotes at least, so that what is left is always shorter.
    if (skipBlanks rest).length < chars.length then
      let (others, behind) ← readItems (skipBlanks rest)
      return (first :: others, behind)
    else none
  | _ => none
termination_by chars.length

/-- Reads the array of strings that characters open with, and what follows it. -/
def readStrings : List Char → Option (List String × List Char)
  | '[' :: chars =>
    match skipBlanks chars with
    | ']' :: rest => some ([], rest)
    | items => readItems items
  | _ => none

/-- What opens with a character that is no blank has none to be skipped. -/
theorem skipBlanks_cons {c : Char} (solid : [' ', '\t', '\n', '\r'].contains c = false)
    (rest : List Char) : skipBlanks (c :: rest) = c :: rest := by
  rw [skipBlanks, List.dropWhile_cons, solid]
  rfl

/-- A JSON string opens with its quote. -/
theorem jsonString_eq_cons (text : String) (rest : List Char) :
    ∃ chars, (jsonString text).toList ++ rest = '"' :: chars := by
  simp [jsonString]

/-- Parts with separators between them are the first one, and the others behind separators. -/
theorem intercalate_cons_eq (separator first : List Char) (others : List (List Char)) :
    separator.intercalate (first :: others) = first ++ others.flatMap (separator ++ ·) := by
  -- By induction on the others: a separator stands in front of each.
  induction others generalizing first with
  | nil => simp
  | cons second others ih =>
    rw [List.intercalate_cons_cons, ih, List.flatMap_cons, List.append_assoc, List.append_assoc]

/-- The items of an array behind the first one, with what follows them. -/
def itemsBehind (others : List String) (rest : List Char) : List Char :=
  others.flatMap (fun text => ',' :: ' ' :: (jsonString text).toList) ++ ']' :: rest

/-- Strings in an array are read as the texts they were written for, up to the closing bracket. -/
theorem readItems_jsonStrings (first : String) (others : List String) (rest : List Char) :
    readItems ((jsonString first).toList ++ itemsBehind others rest) =
      some (first :: others, rest) := by
  induction others generalizing first with
  | nil =>
    rw [readItems, readString_jsonString]
    rfl
  | cons second others ih =>
    have more := ih second
    obtain ⟨chars, opens⟩ := jsonString_eq_cons second (itemsBehind others rest)
    have written : itemsBehind (second :: others) rest = ',' :: ' ' :: '"' :: chars := by
      rw [← opens]
      simp [itemsBehind]
    -- The blank behind the comma is skipped, and the next string opens with its quote.
    have comma : skipBlanks (',' :: ' ' :: '"' :: chars) = ',' :: ' ' :: '"' :: chars :=
      skipBlanks_cons (by decide) _
    have blank : skipBlanks (' ' :: '"' :: chars) = '"' :: chars := rfl
    have shorter : ('"' :: chars).length <
        ((jsonString first).toList ++ ',' :: ' ' :: '"' :: chars).length := by
      simp only [List.length_append, List.length_cons]
      omega
    rw [opens] at more
    rw [written, readItems, readString_jsonString]
    simp only [Option.bind_eq_bind, Option.bind_some, comma, blank, if_pos shorter, more]
    rfl

/-- A JSON array of strings is read as the texts it was written for, whatever follows it. -/
theorem readStrings_jsonStrings (texts : List String) (rest : List Char) :
    readStrings ((jsonStrings texts).toList ++ rest) = some (texts, rest) := by
  -- Behind the bracket stands a text, or the closing bracket at once.
  cases texts with
  | nil => rfl
  | cons first others =>
    have written : (jsonStrings (first :: others)).toList ++ rest =
        '[' :: ((jsonString first).toList ++ itemsBehind others rest) := by
      simp [jsonStrings, intercalate_cons_eq, itemsBehind, List.flatMap_map]
    obtain ⟨chars, opens⟩ := jsonString_eq_cons first (itemsBehind others rest)
    have items := readItems_jsonStrings first others rest
    rw [opens] at written items
    have solid : skipBlanks ('"' :: chars) = '"' :: chars := skipBlanks_cons (by decide) _
    rw [written, readStrings, solid]
    exact items

end ContentQuery.Text
