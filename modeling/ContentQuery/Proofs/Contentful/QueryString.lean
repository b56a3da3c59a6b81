import ContentQuery.Proofs.Contentful.Merging
import ContentQuery.Proofs.Contentful.Options
import ContentQuery.Proofs.Writing

/-! Query strings read back: no parameter is lost, and each is read as it was written. -/

namespace ContentQuery.Contentful

open Text
open scoped List

/-- The bytes that the characters of a query string stand for. -/
def unquote : List Char → List UInt8
  | [] => []
  | '+' :: rest => 0x20 :: unquote rest
  | '%' :: high :: low :: rest =>
    match hexValue? high, hexValue? low with
    | some left, some right => UInt8.ofNat (left * 16 + right) :: unquote rest
    -- A percent sign that no two digits follow stands for itself.
    | _, _ => String.utf8EncodeChar '%' ++ unquote (high :: low :: rest)
  | c :: rest => String.utf8EncodeChar c ++ unquote rest

/-- The text that bytes spell in UTF-8, if they spell one. -/
def spelledBytes (bytes : List UInt8) : Option String :=
  bytes.toByteArray.utf8Decode?.map fun chars => String.ofList chars.toList

/-- Reads one part of a query string, split at its first equals sign. -/
def readPart (part : List Char) : Option (String × String) := do
  let name ← spelledBytes (unquote (part.takeWhile (· != '=')))
  let word ← spelledBytes (unquote ((part.dropWhile (· != '=')).drop 1))
  return (name, word)

/-- Reads a query string, split at its ampersands. -/
def readQuery (text : String) : Option (List (String × String)) :=
  ((text.toList.splitOn '&').filter fun part => !part.isEmpty).mapM readPart

/-- The string form of a value; bytes have the one that they spell. -/
def spelled : Value → Option String
  | .bytes bytes => spelledBytes bytes
  | other => some other.display

/-- A parameter in string form, in which truth values are words of lower case. -/
def spelledPair (entry : Value × Value) : Option (String × String) := do
  let name ← spelled entry.1
  let word ←
    match entry.2 with
    | .bool flag => some (if flag then "true" else "false")
    | other => spelled other
  return (name, word)

/-- Whether a value has a string form whatever it holds, as all values but bytes have. -/
def isWord : Value → Bool
  | .bytes _ => false
  | _ => true

/-- The words of a parameter that has a string form. -/
def wordPair (entry : Value × Value) : String × String :=
  (entry.1.display,
    match entry.2 with
    | .bool flag => if flag then "true" else "false"
    | other => other.display)

/-- A parameter that has a string form has its words for one. -/
theorem spelledPair_of_isWord {entry : Value × Value} (named : isWord entry.1 = true)
    (worded : isWord entry.2 = true) : spelledPair entry = some (wordPair entry) := by
  -- A word is no bytes, and is spelled as it is displayed.
  have word {value : Value} (some_ : isWord value = true) : spelled value = some value.display := by
    cases value with
    | bytes bytes => cases some_
    | _ => rfl
  obtain ⟨key, value⟩ := entry
  unfold spelledPair wordPair
  dsimp only
  rw [word named]
  cases value with
  | bytes bytes => cases worded
  | _ => rfl

/-- Parameters with string forms are spelled as the pairs of their forms. -/
theorem mapM_spelledPair {entries : List (Value × Value)}
    (words : ∀ entry ∈ entries, isWord entry.1 = true ∧ isWord entry.2 = true) :
    entries.mapM spelledPair = some (entries.map wordPair) :=
  mapM_eq_some_map fun entry member =>
    spelledPair_of_isWord (words entry member).1 (words entry member).2

section Bytes

variable {byte : UInt8} {c : Char}

/-- A capital digit has the value that it was written for. -/
theorem hexValue_hexCapital {value : Nat} (small : value < 16) :
    hexValue? (hexCapital value) = some value := by
  rcases value with _ | _ | _ | _ | _ | _ | _ | _ | _ | _ | _ | _ | _ | _ | _ | _ | value
  all_goals first | rfl | omega

/-- A byte that stands for itself is none of the characters that do not. -/
theorem ne_of_isPlainByte (plain : isPlainByte byte = true)
    (special : (c.isAlphanum || "_.-~[],*".toList.contains c) = false) :
    Char.ofNat byte.toNat ≠ c := by
  -- A plain byte stands for a letter, a digit or one of the few marks that are kept.
  intro same
  unfold isPlainByte at plain
  simp only [same, special, Bool.and_false] at plain
  exact nomatch plain

/-- A byte that stands for itself is its own encoding. -/
theorem utf8EncodeChar_of_isPlainByte (plain : isPlainByte byte = true) :
    String.utf8EncodeChar (Char.ofNat byte.toNat) = [byte] := by
  -- In this range the encoding has one byte, which is the code.
  have small : byte.toNat < 0x80 := by simp_all [isPlainByte]
  have code : (Char.ofNat byte.toNat).val.toNat = byte.toNat := by
    unfold Char.ofNat
    rw [dif_pos (Or.inl (by omega))]
    rfl
  unfold String.utf8EncodeChar
  simp only [code]
  rw [if_pos (by omega), UInt8.ofNat_toNat]

/-- A character without a meaning of its own stands for its encoding. -/
theorem unquote_cons (plus : c ≠ '+') (percent : c ≠ '%') (rest : List Char) :
    unquote (c :: rest) = String.utf8EncodeChar c ++ unquote rest := by
  rw [unquote]
  · exact fun same => plus same
  · exact fun _ _ _ same => absurd same percent

/-- A byte that was written is read, whatever comes behind it. -/
theorem unquote_percentByte (byte : UInt8) (rest : List Char) :
    unquote (percentByte byte ++ rest) = byte :: unquote rest := by
  unfold percentByte
  split
  · -- A plain byte is neither a plus sign nor a percent sign.
    rename_i plain
    rw [List.singleton_append, unquote_cons (ne_of_isPlainByte plain (by decide))
      (ne_of_isPlainByte plain (by decide)), utf8EncodeChar_of_isPlainByte plain]
    rfl
  · split
    · rename_i blank
      rw [eq_of_beq blank]
      rfl
    -- The two digits are the halves of the byte, and they are read together.
    · have high : byte.toNat / 16 < 16 := by
        have := byte.toNat_lt
        omega
      have low : byte.toNat % 16 < 16 := Nat.mod_lt _ (by decide)
      have halves : byte.toNat / 16 * 16 + byte.toNat % 16 = byte.toNat := Nat.div_add_mod' _ _
      simp only [List.cons_append, List.nil_append, unquote, hexValue_hexCapital high,
        hexValue_hexCapital low, halves, UInt8.ofNat_toNat]

/-- Bytes that were written are read. -/
theorem unquote_percentBytes (bytes : List UInt8) :
    unquote (percentBytes bytes).toList = bytes := by
  -- By induction on the bytes.
  rw [percentBytes, String.toList_ofList]
  induction bytes with
  | nil => rfl
  | cons byte rest ih => rw [List.flatMap_cons, unquote_percentByte, ih]

/-- A capital digit separates nothing. -/
theorem hexCapital_ne {value : Nat} (small : value < 16) :
    hexCapital value ≠ '&' ∧ hexCapital value ≠ '=' := by
  rcases value with _ | _ | _ | _ | _ | _ | _ | _ | _ | _ | _ | _ | _ | _ | _ | _ | value
  all_goals first | decide | omega

/-- No character that was written separates parameters, or a name from its value. -/
theorem ne_of_mem_percentBytes {bytes : List UInt8} (member : c ∈ (percentBytes bytes).toList) :
    c ≠ '&' ∧ c ≠ '=' := by
  rw [percentBytes, String.toList_ofList] at member
  obtain ⟨byte, -, member⟩ := List.mem_flatMap.mp member
  unfold percentByte at member
  split at member
  · rename_i plain
    rw [List.mem_singleton.mp member]
    exact ⟨ne_of_isPlainByte plain (by decide), ne_of_isPlainByte plain (by decide)⟩
  · split at member
    · rw [List.mem_singleton.mp member]
      decide
    -- A percent sign and two digits.
    · have := byte.toNat_lt
      simp only [List.mem_cons, List.not_mem_nil, or_false] at member
      rcases member with rfl | rfl | rfl
      · decide
      · exact hexCapital_ne (by omega)
      · exact hexCapital_ne (Nat.mod_lt _ (by decide))

/-- The bytes of a text spell the text. -/
theorem spelledBytes_utf8 (text : String) :
    spelledBytes (text.toList.flatMap String.utf8EncodeChar) = some text := by
  -- What was encoded is decoded to the same characters.
  show text.toList.utf8Encode.utf8Decode?.map _ = _
  rw [List.utf8Decode?_utf8Encode]
  simp

end Bytes

section Pairs

/-- The encoded form of a value holds no separator, and it is read as the string form. -/
theorem encoded_reads (value : Value) :
    (∀ c ∈ (encoded value).toList, c ≠ '&' ∧ c ≠ '=') ∧
      spelledBytes (unquote (encoded value).toList) = spelled value := by
  -- All values but bytes are written as the text that displays them.
  have text (words : String) : (∀ c ∈ (percent words).toList, c ≠ '&' ∧ c ≠ '=') ∧
      spelledBytes (unquote (percent words).toList) = some words :=
    ⟨fun c => ne_of_mem_percentBytes, by rw [percent, unquote_percentBytes, spelledBytes_utf8]⟩
  cases value with
  | bytes bytes => exact ⟨fun c => ne_of_mem_percentBytes, by
      show spelledBytes (unquote (percentBytes bytes).toList) = spelledBytes bytes
      rw [unquote_percentBytes]⟩
  | _ => exact text _

/-- A name and a value with an equals sign between them are one part of a query string. -/
theorem readPart_joined {name word : String}
    (named : ∀ c ∈ name.toList, c ≠ '&' ∧ c ≠ '=') (worded : ∀ c ∈ word.toList, c ≠ '&' ∧ c ≠ '=') :
    '&' ∉ (name ++ "=" ++ word).toList ∧ (name ++ "=" ++ word).toList ≠ [] ∧
      readPart (name ++ "=" ++ word).toList = do
        let name ← spelledBytes (unquote name.toList)
        let word ← spelledBytes (unquote word.toList)
        return (name, word) := by
  -- Neither text holds one of the two separators, as both have been quoted.
  have joined : (name ++ "=" ++ word).toList = name.toList ++ '=' :: word.toList := by simp
  have whole : ∀ c ∈ name.toList, (c != '=') = true := fun c member => by simp [named c member]
  rw [joined]
  refine ⟨fun member => ?_, by simp, ?_⟩
  · rcases List.mem_append.mp member with before | behind
    · exact (named _ before).1 rfl
    · rcases List.mem_cons.mp behind with impossible | behind
      · exact absurd impossible (by decide)
      · exact (worded _ behind).1 rfl
  · -- The name ends at the first equals sign, since it holds none itself.
    unfold readPart
    rw [List.takeWhile_append_of_pos whole, List.dropWhile_append_of_pos whole]
    simp

/-- A parameter is one part of a query string, and it is read as its string form. -/
theorem readPart_queryPair (entry : Value × Value) :
    '&' ∉ (queryPair entry.1 entry.2).toList ∧ (queryPair entry.1 entry.2).toList ≠ [] ∧
      readPart (queryPair entry.1 entry.2).toList = spelledPair entry := by
  obtain ⟨key, value⟩ := entry
  obtain ⟨named, nameRead⟩ := encoded_reads key
  have written (word : Value) := readPart_joined named (encoded_reads word).1
  simp only [nameRead, (encoded_reads _).2] at written
  -- A truth value is written as the text that is its word.
  cases value with
  | bool flag => exact written (.text (if flag then "true" else "false"))
  | _ => exact written _

/-- A query string is read as the string forms of its parameters. -/
theorem readQuery_intercalate (entries : List (Value × Value)) :
    readQuery ("&".intercalate (entries.map fun entry => queryPair entry.1 entry.2)) =
      entries.mapM spelledPair := by
  have parts : readQuery ("&".intercalate (entries.map fun entry => queryPair entry.1 entry.2)) =
      (entries.map fun entry => (queryPair entry.1 entry.2).toList).mapM readPart := by
    unfold readQuery
    rw [String.toList_intercalate, List.map_map]
    -- An empty query string has one part, which is empty and is left out.
    cases entries with
    | nil => rfl
    | cons entry rest =>
      have free : ∀ part ∈ (entry :: rest).map
          (String.toList ∘ fun entry : Value × Value => queryPair entry.1 entry.2),
          '&' ∉ part ∧ part ≠ [] := by
        intro part member
        obtain ⟨written, -, rfl⟩ := List.mem_map.mp member
        exact ⟨(readPart_queryPair written).1, (readPart_queryPair written).2.1⟩
      rw [show "&".toList = ['&'] from rfl,
        List.splitOn_intercalate '&' (fun part member => (free part member).1) (by simp),
        List.filter_eq_self.mpr fun part member => by simp [(free part member).2]]
      rfl
  rw [parts, List.mapM_map]
  congr 1
  funext entry
  exact (readPart_queryPair entry).2.2

end Pairs

/-- The filter of a request as parameters. -/
def filterParameters (request : Request) : OrderedMap Value Value :=
  ⟨request.query.entries.map fun entry => (.text entry.1, entry.2.toValue)⟩

/-- A key is one of these parameters exactly when it is taken by the filter. -/
theorem contains_filterParameters (request : Request) (key : Value) :
    (filterParameters request).contains key = convertQuery.inFilter request.query key := by
  unfold filterParameters OrderedMap.contains
  rw [List.any_map]
  cases key with
  | text words =>
    -- Texts are equal as values exactly where they are equal as keys of the filter.
    refine congrArg (List.any _) (funext fun entry => ?_)
    simp [BEq.beq, Value.same, Value.sameAtom]
  | _ =>
    refine List.any_eq_false.mpr fun entry _ equal => ?_
    cases ((Value.isDiscrete_text entry.1).right _).mp equal

/-- No condition of a compiled request takes the name of a parameter beside its filter. -/
theorem inFilter_option {settings : Settings} {everyLocale : Value} {query : Query}
    {conditions : List Condition} {compiled : Request}
    (ran : compile settings everyLocale query conditions = .ok compiled) {name : String}
    (option : name ∈ optionNames) : convertQuery.inFilter compiled.query (.text name) = false := by
  obtain ⟨after, converted, -⟩ := parts_of_compile ran
  refine List.any_eq_false.mpr fun entry member equal => ?_
  rw [← eq_of_beq equal] at option
  -- No condition sets an option, and the content type is none either.
  rcases keys_of_filterOf converted entry member with filters | opens
  · exact not_option_of_isFilterKey filters option
  · rw [opens] at option
    exact absurd option (by decide)

/-- The parameters of a compiled request are those of its filter, and behind them the others. -/
theorem entries_allParameters {settings : Settings} {everyLocale : Value} {query : Query}
    {conditions : List Condition} {compiled : Request}
    (ran : compile settings everyLocale query conditions = .ok compiled) :
    (allParameters compiled).entries =
      (filterParameters compiled).entries ++ compiled.parameters.entries := by
  obtain ⟨after, converted, -, own, names, given⟩ := parts_of_compile ran
  -- What a union overwrites has a key that is there already, and here no key is.
  have distinct : compiled.parameters.Distinct := by
    rw [given]
    exact distinct_passed _ _ _ (distinct_of_named names (by decide))
  refine OrderedMap.entries_union distinct fun entry member => ?_
  show (filterParameters compiled).contains entry.1 = false
  rw [contains_filterParameters]
  obtain ⟨added, listed, each⟩ :=
    entries_passed (convertQuery.inFilter compiled.query) id query.params.entries own
  rw [given, listed] at member
  rcases List.mem_append.mp member with compiled_ | through
  -- A parameter that was compiled is an option, and one that was passed through is checked.
  · obtain ⟨name, option, same⟩ := List.mem_map.mp
      (names.subset (List.mem_map_of_mem compiled_))
    rw [← same]
    exact inFilter_option ran option
  · exact (each entry through).1

/-- The parameters of a compiled request have string forms where what is given for them has. -/
theorem isWord_of_compile {settings : Settings} {everyLocale : Value} {query : Query}
    {conditions : List Condition} {compiled : Request}
    (ran : compile settings everyLocale query conditions = .ok compiled)
    (passes : ∀ entry ∈ query.params.entries, isWord entry.1 = true ∧ isWord entry.2 = true)
    (locale : isWord query.locale = true) (standard : isWord settings.defaultLocale = true) :
    ∀ entry ∈ (allParameters compiled).entries, isWord entry.1 = true ∧ isWord entry.2 = true := by
  obtain ⟨own, held, through⟩ := options_of_compile ran
  obtain ⟨added, listed, each⟩ :=
    entries_passed (convertQuery.inFilter compiled.query) id query.params.entries own
  rw [entries_allParameters ran, through, listed]
  intro entry member
  rcases List.mem_append.mp member with filters | others
  -- A filter has texts and numbers only.
  · obtain ⟨⟨key, parameter⟩, -, rfl⟩ := List.mem_map.mp filters
    exact ⟨rfl, by cases parameter <;> rfl⟩
  · rcases List.mem_append.mp others with compiled_ | passed_
    · obtain ⟨⟨words, named⟩, sent⟩ := held.sent entry compiled_
      rw [named]
      refine ⟨rfl, ?_⟩
      -- What was compiled is a text, a number or a locale, and the rest was given as it is.
      rcases sent with ⟨words, same⟩ | ⟨number, same⟩ | same | same
      · rw [same]
        rfl
      · rw [same]
        rfl
      · rw [same, locale]
      · rw [same, standard]
    · obtain ⟨-, -, value, given, same⟩ := each entry passed_
      rw [same]
      exact passes _ given

/-- The filter of a compiled request can be written, since it was when the request was compiled. -/
theorem canDisplay_filter {settings : Settings} {everyLocale : Value} {query : Query}
    {conditions : List Condition} {compiled : Request}
    (ran : compile settings everyLocale query conditions = .ok compiled) :
    ∀ entry ∈ (filterParameters compiled).entries,
      entry.1.canDisplay = true ∧ entry.2.canDisplay = true := by
  intro entry member
  obtain ⟨⟨key, parameter⟩, there, rfl⟩ := List.mem_map.mp member
  have writable : parameter.isWritable = true :=
    List.all_eq_true.mp (run_of_compile ran).2 (key, parameter) there
  -- Among the parameters of a filter, only an integer may be too long.
  refine ⟨rfl, ?_⟩
  cases parameter with
  | int value => exact writable
  | text | float => rfl

/-- A query string is written exactly where each of the parameters can be. -/
theorem writeQueryString_eq_ok {request : Request} {text : String} :
    writeQueryString request = .ok text ↔ queryString request = text ∧
      ∀ entry ∈ (allParameters request).entries,
        entry.1.canDisplay = true ∧ entry.2.canDisplay = true := by
  -- The text is written when every entry can be displayed.
  unfold writeQueryString
  simp only [← Bool.and_eq_true_iff, ← List.all_eq_true]
  split
  · rename_i writable
    simp [writable]
  · rename_i unwritable
    simp [unwritable]

/--
The query string of a compiled request is lossless: its parameters are those of the filter and,
behind them, all the others, and it is read as their string forms in the same order. It is written
exactly where the parameters beside the filter can be, which an integer with too many digits cannot.
Only bytes may lack a string form, and none are sent but those that are passed through or given for
a locale.
-/
theorem readQuery_writeQueryString {settings : Settings} {everyLocale : Value} {query : Query}
    {compiled : Request}
    (built : (Compiler.contentful settings everyLocale).compileQuery query =
      .ok (.request compiled)) :
    (allParameters compiled).entries =
        compiled.query.entries.map (fun entry => (.text entry.1, entry.2.toValue)) ++
          compiled.parameters.entries ∧
      ((∃ text, writeQueryString compiled = .ok text) ↔
        ∀ entry ∈ compiled.parameters.entries,
          entry.1.canDisplay = true ∧ entry.2.canDisplay = true) ∧
      ∀ text, writeQueryString compiled = .ok text →
        readQuery text = (allParameters compiled).entries.mapM spelledPair ∧
          ((∀ entry ∈ query.params.entries, isWord entry.1 = true ∧ isWord entry.2 = true) →
            isWord query.locale = true → isWord settings.defaultLocale = true →
              readQuery text = some ((allParameters compiled).entries.map wordPair)) := by
  -- The parameters are those of the filter and, behind them, the others.
  obtain ⟨own, -, converted⟩ := Compiler.conditions_of_compileQuery built
  have ran := request_of_output converted
  have listed := entries_allParameters ran
  refine ⟨listed, ?_, ?_⟩
  · -- Whether the filter can be written was decided when it was compiled.
    simp only [writeQueryString_eq_ok, exists_eq_left', listed, List.forall_mem_append]
    exact and_iff_right (canDisplay_filter ran)
  · intro text written
    obtain ⟨rfl, -⟩ := writeQueryString_eq_ok.mp written
    have read : readQuery (queryString compiled) =
        (allParameters compiled).entries.mapM spelledPair := readQuery_intercalate _
    exact ⟨read, fun passes locale standard =>
      read.trans (mapM_spelledPair (isWord_of_compile ran passes locale standard))⟩

/-- Separators in a parameter that is passed through are read as they were given. -/
theorem readQuery_writeQueryString_separators :
    ∃ compiled text, (Compiler.contentful .standard .null).compileQuery
        { Query.everything with
          limit := some 5
          params := ⟨[(.text "a&b=c", .text "1+1 %"), (.text "flag", .bool true)]⟩ } =
          .ok (.request compiled) ∧
      writeQueryString compiled = .ok text ∧
      readQuery text = some [("limit", "5"), ("a&b=c", "1+1 %"), ("flag", "true")] := by
  obtain ⟨compiled, built, listed, beside⟩ : ∃ compiled, (Compiler.contentful .standard
        .null).compileQuery
        { Query.everything with
          limit := some 5
          params := ⟨[(.text "a&b=c", .text "1+1 %"), (.text "flag", .bool true)]⟩ } =
          .ok (.request compiled) ∧
      (allParameters compiled).entries = [(.text "limit", .int 5), (.text "a&b=c", .text "1+1 %"),
        (.text "flag", .bool true)] ∧
      compiled.parameters.entries = [(.text "limit", .int 5), (.text "a&b=c", .text "1+1 %"),
        (.text "flag", .bool true)] := ⟨_, rfl, rfl, rfl⟩
  obtain ⟨-, writes, reads⟩ := readQuery_writeQueryString built
  obtain ⟨text, written⟩ := writes.mpr (by rw [beside]; decide)
  refine ⟨compiled, text, built, written, ?_⟩
  rw [(reads text written).2 (by decide) rfl rfl, listed]
  rfl

/-- An integer that has too many digits is passed through, and no query string is written. -/
theorem integer_without_query_string :
    ∃ compiled, (Compiler.contentful .standard .null).compileQuery
        { Query.everything with params := ⟨[(.text "x", .int tooLong)]⟩ } =
          .ok (.request compiled) ∧
      writeQueryString compiled = .error .unwritable := by
  obtain ⟨compiled, built, beside⟩ : ∃ compiled, (Compiler.contentful .standard .null).compileQuery
        { Query.everything with params := ⟨[(.text "x", .int tooLong)]⟩ } =
          .ok (.request compiled) ∧
      (allParameters compiled).entries = [(.text "x", .int tooLong)] := ⟨_, rfl, rfl⟩
  refine ⟨compiled, built, ?_⟩
  have lengthy : (Value.int tooLong).canDisplay = false := not_isWritable_tooLong
  unfold writeQueryString
  rw [beside]
  simp [lengthy]

end ContentQuery.Contentful
