import ContentQuery.Proofs.JsonString
import ContentQuery.Text.Quoted

/-! Quoted texts: each is told from every other one, whatever follows it. -/

namespace ContentQuery.Text

/-- Reads the character with a code of so many hexadecimal digits. -/
def readCode (width : Nat) (chars : List Char) : Option (Char × List Char) := do
  return (Char.ofNat (← hexNumber? (chars.take width)), chars.drop width)

/-- Reads one character between delimiters, which may be written as several. -/
def readQuotedChar : List Char → Option (Char × List Char)
  | '\\' :: 't' :: rest => some ('\t', rest)
  | '\\' :: 'n' :: rest => some ('\n', rest)
  | '\\' :: 'r' :: rest => some ('\r', rest)
  | '\\' :: 'x' :: rest => readCode 2 rest
  | '\\' :: 'u' :: rest => readCode 4 rest
  | '\\' :: 'U' :: rest => readCode 8 rest
  | '\\' :: c :: rest => some (c, rest)
  | c :: rest => some (c, rest)
  | [] => none

/-- As many hexadecimal digits are written as there are places. -/
theorem length_hexDigits (width value : Nat) : (hexDigits width value).length = width := by
  induction width generalizing value with
  | zero => rfl
  | succ width ih => rw [hexDigits, List.length_append, ih, List.length_singleton]

/-- The code of a character is read where its places hold it. -/
theorem readCode_hexDigits {width : Nat} {c : Char} (fits : c.toNat < 16 ^ width)
    (rest : List Char) : readCode width (hexDigits width c.toNat ++ rest) = some (c, rest) := by
  -- The width is that of the digits, and the code fits into it.
  have width_ := length_hexDigits width c.toNat
  unfold readCode
  rw [List.take_left' width_, List.drop_left' width_, hexNumber_hexDigits, Nat.mod_eq_of_lt fits]
  simp [Char.ofNat_toNat]

/-- Codes of characters take eight places at most. -/
theorem toNat_lt (c : Char) : c.toNat < 16 ^ 8 := by
  -- The largest code has six digits.
  have valid := c.valid
  simp only [UInt32.isValidChar, Nat.isValidChar] at valid
  simp only [Char.toNat]
  omega

/-- A character that is escaped by its code is read. -/
theorem readQuotedChar_hexEscape (c : Char) (rest : List Char) :
    readQuotedChar (hexEscape c.toNat ++ rest) = some (c, rest) := by
  -- Three widths, by the size of the code, each with its own mark.
  unfold hexEscape
  split
  · rename_i small
    exact readCode_hexDigits small rest
  · split
    · rename_i medium
      exact readCode_hexDigits medium rest
    · exact readCode_hexDigits (toNat_lt c) rest

section Quoted

variable (plain : Char → Bool) {mark : Char} (quotes : mark = '\'' ∨ mark = '"')
include quotes

/-- A character is read as it was written between quotes. -/
theorem readQuotedChar_quoteChar (c : Char) (rest : List Char) :
    readQuotedChar (quoteChar plain mark c ++ rest) = some (c, rest) := by
  unfold quoteChar
  split
  · rename_i escaped
    -- Behind a backslash, neither quotes nor a backslash mean anything else.
    rcases Bool.or_eq_true_iff.mp escaped with quote | backslash
    · obtain rfl : c = mark := by simpa using quote
      rcases quotes with rfl | rfl <;> rfl
    · obtain rfl : c = '\\' := by simpa using backslash
      rfl
  · rename_i ordinary
    split
    · rename_i tab
      obtain rfl : c = '\t' := by simpa using tab
      rfl
    · split
      · rename_i line
        obtain rfl : c = '\n' := by simpa using line
        rfl
      · split
        · rename_i feed
          obtain rfl : c = '\r' := by simpa using feed
          rfl
        · split
          · have unescaped : c ≠ '\\' := by
              rintro rfl
              simp at ordinary
            show readQuotedChar (c :: rest) = some (c, rest)
            unfold readQuotedChar
            split <;> simp_all
          · exact readQuotedChar_hexEscape c rest

omit quotes in
/-- A character is written behind a backslash, or stands as it is and is no quote. -/
theorem quoteChar_cases (c : Char) :
    (∃ rest, quoteChar plain mark c = '\\' :: rest) ∨ quoteChar plain mark c = [c] ∧ c ≠ mark := by
  -- Either an escape begins with a backslash, or the character stands for itself and is not the
  -- delimiter.
  unfold quoteChar
  split
  · exact Or.inl ⟨_, rfl⟩
  · rename_i ordinary
    have unmarked : c ≠ mark := by
      rintro rfl
      simp at ordinary
    iterate 3
      split
      · exact Or.inl ⟨_, rfl⟩
    split
    · exact Or.inr ⟨rfl, unmarked⟩
    · unfold hexEscape
      split
      · exact Or.inl ⟨_, rfl⟩
      · split <;> exact Or.inl ⟨_, rfl⟩

/-- What is written for a character does not start with the quote around it. -/
theorem quoteChar_append_ne (c : Char) (rest behind : List Char) :
    quoteChar plain mark c ++ rest ≠ mark :: behind := by
  -- Neither a backslash nor an ordinary character is the delimiter.
  have backslash : '\\' ≠ mark := by rcases quotes with rfl | rfl <;> decide
  intro same
  rcases quoteChar_cases plain c with ⟨escape, written⟩ | ⟨written, unmarked⟩
  · rw [written] at same
    exact backslash (List.cons.inj same).1
  · rw [written] at same
    exact unmarked (List.cons.inj same).1

/-- Quoted characters end at the quote, so that no others are written like them. -/
theorem eq_of_flatMap_quoteChar {chars chars' rest rest' : List Char}
    (same : chars.flatMap (quoteChar plain mark) ++ mark :: rest =
      chars'.flatMap (quoteChar plain mark) ++ mark :: rest') : chars = chars' ∧ rest = rest' := by
  -- The induction reads one character at a time, until either side comes to the quote.
  induction chars generalizing chars' with
  | nil =>
    cases chars' with
    | nil => exact ⟨rfl, (List.cons.inj same).2⟩
    | cons c' others' =>
      rw [List.flatMap_cons, List.append_assoc] at same
      exact (quoteChar_append_ne plain quotes c' _ rest same.symm).elim
  | cons c others ih =>
    rw [List.flatMap_cons, List.append_assoc] at same
    cases chars' with
    | nil => exact (quoteChar_append_ne plain quotes c _ rest' same).elim
    | cons c' others' =>
      rw [List.flatMap_cons, List.append_assoc] at same
      -- Both first characters are read from the same text.
      have read := readQuotedChar_quoteChar plain quotes c
        (others.flatMap (quoteChar plain mark) ++ mark :: rest)
      rw [same, readQuotedChar_quoteChar plain quotes] at read
      obtain ⟨rfl, behind⟩ := Prod.mk.inj (Option.some.inj read)
      obtain ⟨rfl, rfl⟩ := ih behind.symm
      exact ⟨rfl, rfl⟩

end Quoted

/-- A text is quoted by one of two characters. -/
theorem delimiter_cases (chars : List Char) : delimiter chars = '\'' ∨ delimiter chars = '"' := by
  unfold delimiter
  split
  · exact Or.inr rfl
  · exact Or.inl rfl

/-- A text is quoted behind its delimiter. -/
theorem exists_quote (text : String) :
    ∃ rest, (quote text).toList = delimiter text.toList :: rest := by
  unfold quote quoteChars
  rw [String.toList_ofList]
  exact ⟨_, rfl⟩

/-- Texts that are quoted in one way are the same, whatever follows them. -/
theorem eq_of_quote {text text' : String} {rest rest' : List Char}
    (same : (quote text).toList ++ rest = (quote text').toList ++ rest') :
    text = text' ∧ rest = rest' := by
  -- The delimiters are the same, so that what stands between them is read back up to the closing
  -- one.
  simp only [quote, quoteChars, String.toList_ofList, List.cons_append, List.append_assoc,
    List.nil_append, List.cons.injEq] at same
  obtain ⟨mark, same⟩ := same
  rw [mark] at same
  obtain ⟨chars, behind⟩ := eq_of_flatMap_quoteChar isPrintable (delimiter_cases _) same
  exact ⟨String.toList_injective chars, behind⟩

end ContentQuery.Text
