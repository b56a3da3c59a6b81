import ContentQuery.Proofs.DecimalNotation
import ContentQuery.Proofs.Groq.SilentTexts
import ContentQuery.Proofs.JsonForm
import ContentQuery.Proofs.QuotedText
import Mathlib

/-! Telling forms of values in JSON form: each is told from every other one. -/

namespace ContentQuery

namespace Text

/-- Whether characters do not continue a number. -/
def EndsNumeral (rest : List Char) : Prop :=
  ∀ c, rest.head? = some c → Groq.isNumeralChar c = false

/-- Characters of one kind end where another character stands. -/
theorem eq_of_run {kind : Char → Bool} {chars chars' rest rest' : List Char}
    (run : ∀ c ∈ chars, kind c = true) (run' : ∀ c ∈ chars', kind c = true)
    (ends : ∀ c, rest.head? = some c → kind c = false)
    (ends' : ∀ c, rest'.head? = some c → kind c = false)
    (same : chars ++ rest = chars' ++ rest') : chars = chars' ∧ rest = rest' := by
  -- Either run is what is taken from the whole while the kind lasts.
  have front {chars rest : List Char} (run : ∀ c ∈ chars, kind c = true)
      (ends : ∀ c, rest.head? = some c → kind c = false) :
      (chars ++ rest).takeWhile kind = chars := by
    rw [List.takeWhile_append_of_pos run]
    cases rest with
    | nil => exact List.append_nil chars
    | cons c rest => rw [List.takeWhile_cons_of_neg (by simp [ends c rfl]), List.append_nil]
  have agreed := congrArg (List.takeWhile kind) same
  rw [front run ends, front run' ends'] at agreed
  subst agreed
  exact ⟨rfl, List.append_cancel_left same⟩

/-- An integer is written in characters of numbers, with neither a point nor an exponent. -/
theorem numeral_integer (number : Int) : ∀ c ∈ (toString number).toList,
    Groq.isNumeralChar c = true ∧ c ≠ '.' ∧ c ≠ 'e' := by
  have digits (number : Nat) : ∀ c ∈ (toString number).toList,
      Groq.isNumeralChar c = true ∧ c ≠ '.' ∧ c ≠ 'e' := by
    intro c member
    have digit := Groq.isDigit_of_mem_toString member
    refine ⟨by simp [Groq.isNumeralChar, digit], ?_, ?_⟩ <;>
      · rintro rfl
        cases digit
  cases number with
  | ofNat number => exact digits number
  | negSucc number =>
    -- A negative integer is a sign and a natural number.
    show ∀ c ∈ ("-" ++ toString (number + 1)).toList, _
    rw [String.toList_append]
    exact List.forall_mem_cons.mpr ⟨by decide, digits _⟩

/-- An integer has digits. -/
theorem integer_ne_nil (number : Int) : (toString number).toList ≠ [] := by
  -- A natural number has a digit at least, and a negative one has its sign.
  cases number with
  | ofNat number =>
    show (toString number).toList ≠ []
    rw [Nat.toString_eq_ofList_toDigits, String.toList_ofList]
    exact Nat.toDigits_ne_nil
  | negSucc number =>
    show ("-" ++ toString (number + 1)).toList ≠ []
    rw [String.toList_append]
    exact List.cons_ne_nil _ _

end Text

namespace Binary64

/-- A number is written in characters of numbers where it is finite. -/
theorem numeral_text {number : Binary64} (finite : number.isFinite = true) :
    ∀ c ∈ number.text.toList, Groq.isNumeralChar c = true := by
  -- A float is written by the characters of numerals, its sign among them.
  cases number with
  | nan | infinite => cases finite
  | finite negative significand exponent canonical =>
    have magnitude := Groq.numeral_magnitude significand exponent
    simp only [text, String.toList_ofList]
    split
    · exact List.forall_mem_cons.mpr ⟨by decide, magnitude⟩
    · exact magnitude

/-- A finite number has digits. -/
theorem text_ne_nil {number : Binary64} (finite : number.isFinite = true) :
    number.text.toList ≠ [] := by
  -- A finite float begins with a digit, which its sign may precede.
  cases number with
  | nan | infinite => cases finite
  | finite negative significand exponent canonical =>
    obtain ⟨first, rest, written, -⟩ := exists_head canonical
    simp only [text, String.toList_ofList, written]
    split <;> exact List.cons_ne_nil _ _

/-- A finite number has a point or an exponent, which no integer has. -/
theorem text_ne_integer {number : Binary64} (finite : number.isFinite = true) (value : Int) :
    number.text ≠ toString value := by
  -- A float is told from an integer by its point or its power, neither of which an integer has.
  cases number with
  | nan | infinite => cases finite
  | finite negative significand exponent canonical =>
    intro same
    have chars := congrArg String.toList same
    simp only [text, String.toList_ofList] at chars
    have among (c : Char) (member : c ∈ magnitudeChars significand exponent) :
        c ∈ (toString value).toList := by
      rw [← chars]
      split
      · exact List.mem_cons_of_mem _ member
      · exact member
    rcases exists_mark canonical with point | power
    · exact (Text.numeral_integer value _ (among _ point)).2.1 rfl
    · exact (Text.numeral_integer value _ (among _ power)).2.2 rfl

end Binary64

namespace Value

mutual

/-- Whether a value is in JSON form, at whatever depth. -/
def isJson : Value → Bool
  | .null | .bool _ | .int _ | .text _ => true
  | .float number => number.isFinite
  | .list items => areJson items
  | .map entries => haveJson entries
  | _ => false
termination_by structural input => input

/-- Whether values are in JSON form. -/
def areJson : List Value → Bool
  | [] => true
  | item :: rest => isJson item && areJson rest
termination_by structural input => input

/-- Whether the entries of a map are in JSON form, whose keys are texts. -/
def haveJson : List (Value × Value) → Bool
  | [] => true
  | (.text _, value) :: rest => isJson value && haveJson rest
  | _ => false
termination_by structural input => input

end

/-- Exactly values in JSON form make a list of ones. -/
theorem areJson_iff (items : List Value) :
    areJson items = true ↔ ∀ item ∈ items, isJson item = true := by
  induction items with
  | nil => simp [areJson]
  | cons item rest ih => rw [areJson, Bool.and_eq_true, ih, List.forall_mem_cons]

/-- Exactly entries with texts as keys and values in JSON form make a map of ones. -/
theorem haveJson_iff (entries : List (Value × Value)) : haveJson entries = true ↔
    ∀ entry ∈ entries, (∃ name, entry.1 = .text name) ∧ isJson entry.2 = true := by
  -- By induction on the entries.
  induction entries with
  | nil => simp [haveJson]
  | cons entry rest ih =>
    obtain ⟨key, value⟩ := entry
    rw [List.forall_mem_cons, ← ih]
    cases key <;> simp [haveJson]

/-- The kinds of JSON values, as their first characters tell them. -/
inductive JsonKind where
  | null
  | flag
  | number
  | string
  | array
  | object
  | other
  deriving DecidableEq

/-- The kind that a character announces. -/
def kindOf (c : Char) : JsonKind :=
  if Groq.isNumeralChar c then .number
  else if c == 'N' then .null
  else if c == 'T' || c == 'F' then .flag
  else if c == '\'' || c == '"' then .string
  else if c == '[' then .array
  else if c == '\x7b' then .object
  else .other

/-- The kind of a value. -/
def kind : Value → JsonKind
  | .null => .null
  | .bool _ => .flag
  | .int _ | .float _ => .number
  | .text _ => .string
  | .list _ => .array
  | .map _ => .object
  | _ => .other

/-- Items are shown one by one. -/
theorem inspectAll_eq_map (items : List Value) : inspectAll items = items.map inspect := by
  induction items with
  | nil => rfl
  | cons item rest ih => exact congrArg (item.inspect :: ·) ih

/-- An entry of a map is shown as its key and its value. -/
def inspectEntry (entry : Value × Value) : String :=
  entry.1.inspect ++ ": " ++ entry.2.inspect

/-- Entries are shown one by one. -/
theorem inspectEntries_eq_map (entries : List (Value × Value)) :
    inspectEntries entries = entries.map inspectEntry := by
  induction entries with
  | nil => rfl
  | cons entry rest ih => exact congrArg (inspectEntry entry :: ·) ih

/-- An entry with a text as its key is shown as the quoted text and its value. -/
theorem toList_inspectEntry (name : String) (value : Value) :
    (inspectEntry (.text name, value)).toList =
      (Text.quote name).toList ++ ([':', ' '] ++ value.inspect.toList) := by
  show (Text.quote name ++ ": " ++ value.inspect).toList = _
  rw [String.toList_append, String.toList_append, List.append_assoc]
  rfl

/-- A list is shown as its items between brackets. -/
theorem toList_inspect_list (items : List Value) : (list items).inspect.toList =
    '[' :: ([',', ' '].intercalate (items.map fun item => item.inspect.toList) ++ [']']) := by
  show ("[" ++ ", ".intercalate (inspectAll items) ++ "]").toList = _
  rw [inspectAll_eq_map, String.toList_append, String.toList_append, String.toList_intercalate,
    List.map_map]
  rfl

/-- A map is shown as its entries between braces. -/
theorem toList_inspect_map (entries : List (Value × Value)) : (map entries).inspect.toList =
    '\x7b' :: ([',', ' '].intercalate (entries.map fun entry => (inspectEntry entry).toList) ++
      ['\x7d']) := by
  show ("\x7b" ++ ", ".intercalate (inspectEntries entries) ++ "\x7d").toList = _
  rw [inspectEntries_eq_map, String.toList_append, String.toList_append, String.toList_intercalate,
    List.map_map]
  rfl

/-- The telling form of a value in JSON form announces its kind. -/
theorem exists_inspect {value : Value} (json : value.isJson = true) :
    ∃ first rest, value.inspect.toList = first :: rest ∧ kindOf first = value.kind := by
  -- Each kind of form has its own first character; a number has one of several, all of them of
  -- numerals.
  have numeral {text : String} (some_ : text.toList ≠ [])
      (each : ∀ c ∈ text.toList, Groq.isNumeralChar c = true) :
      ∃ first rest, text.toList = first :: rest ∧ kindOf first = .number := by
    obtain ⟨first, rest, written⟩ := List.exists_cons_of_ne_nil some_
    rw [written] at each
    exact ⟨first, rest, written, if_pos (each first List.mem_cons_self)⟩
  cases value with
  | null => exact ⟨'N', _, rfl, by decide⟩
  | bool flag =>
    cases flag
    · exact ⟨'F', _, rfl, by decide⟩
    · exact ⟨'T', _, rfl, by decide⟩
  | int number =>
    exact numeral (Text.integer_ne_nil number) fun c member =>
      (Text.numeral_integer number c member).1
  | float number => exact numeral (Binary64.text_ne_nil json) (Binary64.numeral_text json)
  | text words =>
    obtain ⟨rest, written⟩ := Text.exists_quote words
    refine ⟨_, rest, written, ?_⟩
    show kindOf _ = .string
    rcases Text.delimiter_cases words.toList with mark | mark <;> rw [mark] <;> decide
  | list items => exact ⟨'[', _, toList_inspect_list items, show kindOf '[' = .array by decide⟩
  | map entries =>
    exact ⟨'\x7b', _, toList_inspect_map entries, show kindOf '\x7b' = .object by decide⟩
  | _ => cases json

section Joined

open Text (EndsNumeral)

variable {α : Type} {good : α → Prop} {write : α → List Char}

/-- Whether an item is told from every good one by what is written for it. -/
def ToldApart (good : α → Prop) (write : α → List Char) (item : α) : Prop :=
  ∀ item' rest rest', good item' → EndsNumeral rest → EndsNumeral rest' →
    write item ++ rest = write item' ++ rest' → item = item' ∧ rest = rest'

/-- Whether no further item can be read from characters, be it the first one or another one. -/
structure Stops (good : α → Prop) (write : α → List Char) (rest : List Char) : Prop where
  ends : EndsNumeral rest
  first : ∀ item behind, good item → write item ++ behind ≠ rest
  further : ∀ item behind, good item → ',' :: ' ' :: (write item ++ behind) ≠ rest

/-- What starts with a character that no number has ends numbers. -/
theorem endsNumeral_cons {c : Char} (strange : Groq.isNumeralChar c = false) (rest : List Char) :
    EndsNumeral (c :: rest) := by
  intro first head
  obtain rfl := Option.some.inj head
  exact strange

variable {items items' : List α} {rest rest' : List Char}

/-- What stands behind an item ends numbers: a separator, or what stands behind all of them. -/
theorem Stops.endsNumeral_others (stops : Stops good write rest) (others : List α) :
    EndsNumeral (others.flatMap (fun item => ',' :: ' ' :: write item) ++ rest) := by
  cases others with
  | nil => exact stops.ends
  | cons item others => exact endsNumeral_cons (by decide) _

variable (stops : Stops good write rest) (stops' : Stops good write rest')
  (told : ∀ item ∈ items, ToldApart good write item) (each : ∀ item ∈ items, good item)
  (each' : ∀ item ∈ items', good item)
include stops stops' told each each'

/-- Items behind separators are told from others where each of them is. -/
theorem eq_of_others
    (same : items.flatMap (fun item => ',' :: ' ' :: write item) ++ rest =
      items'.flatMap (fun item => ',' :: ' ' :: write item) ++ rest') :
    items = items' ∧ rest = rest' := by
  -- Either list goes on with a separator and an item, or ends where no item can be read.
  induction items generalizing items' with
  | nil =>
    cases items' with
    | nil => exact ⟨rfl, same⟩
    | cons item' others' =>
      rw [List.flatMap_cons, List.append_assoc] at same
      exact (stops.further item' _ (each' item' List.mem_cons_self) same.symm).elim
  | cons item others ih =>
    rw [List.flatMap_cons, List.append_assoc] at same
    cases items' with
    | nil => exact (stops'.further item _ (each item List.mem_cons_self) same).elim
    | cons item' others' =>
      obtain ⟨here', later'⟩ := List.forall_mem_cons.mp each'
      rw [List.flatMap_cons, List.append_assoc] at same
      simp only [List.cons_append, List.cons.injEq, true_and] at same
      obtain ⟨rfl, behind⟩ := told item List.mem_cons_self item' _ _ here'
        (stops.endsNumeral_others others) (stops'.endsNumeral_others others') same
      obtain ⟨rfl, rfl⟩ := ih (List.forall_mem_cons.mp told).2 (List.forall_mem_cons.mp each).2
        later' behind
      exact ⟨rfl, rfl⟩

/-- Items with separators between them are told from others where each of them is. -/
theorem eq_of_joined
    (same : [',', ' '].intercalate (items.map write) ++ rest =
      [',', ' '].intercalate (items'.map write) ++ rest') :
    items = items' ∧ rest = rest' := by
  -- By cases on whether a list is empty: what follows the last item cannot be read as an item, nor
  -- as the separator before one.
  cases items with
  | nil =>
    cases items' with
    | nil => exact ⟨rfl, same⟩
    | cons item' others' =>
      rw [List.map_cons, Text.intercalate_cons_eq, List.append_assoc] at same
      exact (stops.first item' _ (each' item' List.mem_cons_self) same.symm).elim
  | cons item others =>
    rw [List.map_cons, Text.intercalate_cons_eq, List.append_assoc, List.flatMap_map] at same
    cases items' with
    | nil => exact (stops'.first item _ (each item List.mem_cons_self) same).elim
    | cons item' others' =>
      rw [List.map_cons, Text.intercalate_cons_eq, List.append_assoc, List.flatMap_map] at same
      obtain ⟨here', later'⟩ := List.forall_mem_cons.mp each'
      obtain ⟨rfl, behind⟩ := told item List.mem_cons_self item' _ _ here'
        (stops.endsNumeral_others others) (stops'.endsNumeral_others others') same
      obtain ⟨rfl, rfl⟩ := eq_of_others stops stops' (List.forall_mem_cons.mp told).2
        (List.forall_mem_cons.mp each).2 later' behind
      exact ⟨rfl, rfl⟩

end Joined

/-- Whether an entry of a map is in JSON form. -/
def IsEntry (entry : Value × Value) : Prop :=
  (∃ name, entry.1 = .text name) ∧ entry.2.isJson = true

/-- Whether a value is told from every value in JSON form by its telling form. -/
def IsTold (value : Value) : Prop :=
  ToldApart (fun other => other.isJson = true) (fun other => other.inspect.toList) value

/-- Values in JSON form that are shown alike are of one kind. -/
theorem kind_eq_of_inspect {value value' : Value} {rest rest' : List Char}
    (json : value.isJson = true) (json' : value'.isJson = true)
    (same : value.inspect.toList ++ rest = value'.inspect.toList ++ rest') :
    value.kind = value'.kind := by
  -- The first character tells the kind, and it is the same in both.
  obtain ⟨first, others, shown, kind⟩ := exists_inspect json
  obtain ⟨first', others', shown', kind'⟩ := exists_inspect json'
  rw [shown, shown'] at same
  rw [← kind, ← kind', (List.cons.inj same).1]

/-- A value in JSON form does not start with a character that no kind has. -/
theorem inspect_append_ne {value : Value} (json : value.isJson = true) {close : Char}
    (strange : kindOf close = .other) (behind last : List Char) :
    value.inspect.toList ++ behind ≠ close :: last := by
  -- The first character of a shown value tells its kind, and this one is of no kind.
  intro same
  obtain ⟨first, others, shown, kind⟩ := exists_inspect json
  rw [shown] at same
  rw [(List.cons.inj same).1, strange] at kind
  cases value with
  | null | bool | int | float | text | list | map => exact nomatch kind
  | _ => cases json

/-- No item is read from a closing bracket. -/
theorem stops_items (rest : List Char) :
    Stops (fun item : Value => item.isJson = true) (fun item : Value => item.inspect.toList)
      (']' :: rest) where
  ends := endsNumeral_cons (by decide) rest
  first _ behind json := inspect_append_ne json (show kindOf ']' = .other by decide) behind rest
  further _ _ _ same := absurd (List.cons.inj same).1 (by decide)

/-- No entry is read from a closing brace. -/
theorem stops_entries (rest : List Char) :
    Stops IsEntry (fun entry : Value × Value => (inspectEntry entry).toList) ('\x7d' :: rest) where
  ends := endsNumeral_cons (by decide) rest
  first entry behind json := by
    obtain ⟨key, value⟩ := entry
    obtain ⟨⟨name, named⟩, -⟩ := json
    obtain rfl : key = .text name := named
    rw [toList_inspectEntry, List.append_assoc]
    have json : (text name).isJson = true := rfl
    exact inspect_append_ne json (show kindOf '\x7d' = .other by decide) _ rest
  further _ _ _ same := absurd (List.cons.inj same).1 (by decide)

/-- A number is told from other numbers. -/
theorem isTold_number {value : Value} (json : value.isJson = true) (number : value.kind = .number) :
    value.IsTold := by
  intro value' rest rest' json' ends ends' same
  have kinds := kind_eq_of_inspect json json' same
  rw [number] at kinds
  -- A numeral is a run of its characters, and only that of a float has a point or an exponent.
  have integer (count : Int) := fun c member => (Text.numeral_integer count c member).1
  cases value with
  | int count =>
    cases value' with
    | int count' =>
      obtain ⟨agreed, rfl⟩ := Text.eq_of_run (integer count) (integer count') ends ends' same
      obtain rfl := Int.repr_injective (String.toList_injective agreed)
      exact ⟨rfl, rfl⟩
    | float number' =>
      obtain ⟨agreed, -⟩ := Text.eq_of_run (integer count) (Binary64.numeral_text json') ends
        ends' same
      exact (Binary64.text_ne_integer json' count (String.toList_injective agreed).symm).elim
    | _ => exact nomatch kinds
  | float number =>
    cases value' with
    | int count' =>
      obtain ⟨agreed, -⟩ := Text.eq_of_run (Binary64.numeral_text json) (integer count') ends
        ends' same
      exact (Binary64.text_ne_integer json count' (String.toList_injective agreed)).elim
    | float number' =>
      obtain ⟨agreed, rfl⟩ := Text.eq_of_run (Binary64.numeral_text json)
        (Binary64.numeral_text json') ends ends' same
      obtain rfl := Binary64.eq_of_text json json' (String.toList_injective agreed)
      exact ⟨rfl, rfl⟩
    | _ => exact nomatch kinds
  | _ => exact nomatch number

/-- An entry of a map is told from others where its value is. -/
theorem toldApart_entry (name : String) {value : Value} (told : value.IsTold) :
    ToldApart IsEntry (fun entry => (inspectEntry entry).toList) (.text name, value) := by
  intro entry' rest rest' json' ends ends' same
  obtain ⟨key', value'⟩ := entry'
  obtain ⟨⟨name', named⟩, json'⟩ := json'
  obtain rfl : key' = .text name' := named
  simp only [toList_inspectEntry, List.append_assoc] at same
  -- The keys end with their quotes, and what stands between them and the values is the same.
  obtain ⟨rfl, behind⟩ := Text.eq_of_quote same
  obtain ⟨rfl, rfl⟩ := told value' rest rest' json' ends ends' (List.append_cancel_left behind)
  exact ⟨rfl, rfl⟩

/-- A list is told from others where each of its items is. -/
theorem isTold_list {items : List Value} (json : areJson items = true)
    (told : ∀ item ∈ items, item.IsTold) : (list items).IsTold := by
  intro value' rest rest' json' _ _ same
  have kinds : (list items).kind = value'.kind := kind_eq_of_inspect json json' same
  cases value' with
  | list items' =>
    simp only [toList_inspect_list, List.cons_append, List.append_assoc, List.cons.injEq,
      true_and, List.nil_append] at same
    have each := (areJson_iff items).mp json
    have each' := (areJson_iff items').mp json'
    -- Neither what is in the items nor what stands behind them hides the closing bracket.
    obtain ⟨rfl, behind⟩ := eq_of_joined (stops_items rest) (stops_items rest') told each
      each' same
    exact ⟨rfl, (List.cons.inj behind).2⟩
  | _ => exact nomatch kinds

/-- A map is told from others where each of its entries is. -/
theorem isTold_map {entries : List (Value × Value)} (json : haveJson entries = true)
    (told : ∀ entry ∈ entries,
      ToldApart IsEntry (fun entry => (inspectEntry entry).toList) entry) :
    (map entries).IsTold := by
  -- Only another map is shown in braces, and its entries are read one by one.
  intro value' rest rest' json' _ _ same
  have kinds : (map entries).kind = value'.kind := kind_eq_of_inspect json json' same
  cases value' with
  | map entries' =>
    simp only [toList_inspect_map, List.cons_append, List.append_assoc, List.cons.injEq,
      true_and, List.nil_append] at same
    have each : ∀ entry ∈ entries, IsEntry entry := (haveJson_iff entries).mp json
    have each' : ∀ entry ∈ entries', IsEntry entry := (haveJson_iff entries').mp json'
    obtain ⟨rfl, behind⟩ := eq_of_joined (stops_entries rest) (stops_entries rest') told each
      each' same
    exact ⟨rfl, (List.cons.inj behind).2⟩
  | _ => exact nomatch kinds

mutual

/-- A value in JSON form is told from every other one, whatever follows. -/
theorem isTold : (value : Value) → value.isJson = true → value.IsTold
  -- By induction on the value: the first character tells the kind, and within a kind what is shown
  -- is read up to its end.
  | .null, json => by
    intro value' rest rest' json' _ _ same
    have kinds := kind_eq_of_inspect json json' same
    cases value' with
    | null => exact ⟨rfl, List.append_cancel_left same⟩
    | _ => exact nomatch kinds
  | .bool flag, json => by
    intro value' rest rest' json' _ _ same
    have kinds := kind_eq_of_inspect json json' same
    cases value' with
    | bool flag' =>
      cases flag <;> cases flag'
      · exact ⟨rfl, List.append_cancel_left same⟩
      · exact nomatch (List.cons.inj same).1
      · exact nomatch (List.cons.inj same).1
      · exact ⟨rfl, List.append_cancel_left same⟩
    | _ => exact nomatch kinds
  | .int _, json | .float _, json => isTold_number json rfl
  | .text words, json => by
    intro value' rest rest' json' _ _ same
    have kinds := kind_eq_of_inspect json json' same
    cases value' with
    | text words' =>
      obtain ⟨rfl, rfl⟩ := Text.eq_of_quote same
      exact ⟨rfl, rfl⟩
    | _ => exact nomatch kinds
  | .list items, json => isTold_list json (areTold items json)
  | .map entries, json => isTold_map json (areToldEntries entries json)
  | .bytes _, json | .uuid _, json | .moment _, json | .date _, json | .time _, json
  | .tuple _, json | .set _ _, json | .operator _, json | .member _, json | .foreign, json
  | .node .., json | .sortKey _, json | .projection _, json => by cases json
termination_by structural value => value

/-- Values in JSON form are told from others one by one. -/
theorem areTold : (items : List Value) → areJson items = true → ∀ item ∈ items, item.IsTold
  -- By induction on the items.
  | [], _ => List.forall_mem_nil _
  | item :: rest, json => by
    obtain ⟨here, later⟩ := Bool.and_eq_true_iff.mp json
    exact List.forall_mem_cons.mpr ⟨isTold item here, areTold rest later⟩
termination_by structural items => items

/-- Entries in JSON form are told from others one by one. -/
theorem areToldEntries : (entries : List (Value × Value)) → haveJson entries = true →
    ∀ entry ∈ entries, ToldApart IsEntry (fun entry => (inspectEntry entry).toList) entry
  -- By induction on the entries; a key is a text, and told apart as one.
  | [], _ => List.forall_mem_nil _
  | (key, value) :: rest, json => by
    have told := isTold value
    have others := areToldEntries rest
    obtain ⟨⟨⟨name, named⟩, here⟩, later⟩ := List.forall_mem_cons.mp ((haveJson_iff _).mp json)
    obtain rfl : key = .text name := named
    exact List.forall_mem_cons.mpr
      ⟨toldApart_entry name (told here), others ((haveJson_iff rest).mpr later)⟩
termination_by structural entries => entries

end

mutual

/-- The JSON form of a value is in JSON form. -/
theorem isJson_of_jsonForm : (value : Value) → (depth : Nat) → (opened : Bool) → {form : Value} →
    jsonForm depth opened value = .ok form → form.isJson = true
  | .null, _, _, _, made | .bool _, _, _, _, made | .int _, _, _, _, made | .text _, _, _, _, made
  | .uuid _, _, _, _, made | .moment _, _, _, _, made | .date _, _, _, _, made
  | .time _, _, _, _, made => by
    cases made
    rfl
  | .float number, _, _, _, made => by
    unfold jsonForm at made
    split at made
    · rename_i finite
      cases made
      exact finite
    · exact nomatch made
  | .operator _, _, _, _, made => by
    unfold jsonForm at made
    split at made
    · exact nomatch made
    · cases made
      rfl
  | .member value, depth, _, _, made => by
    unfold jsonForm at made
    split at made
    · exact nomatch made
    · exact isJson_of_jsonForm value depth true made
  | .list items, depth, _, _, made | .tuple items, depth, _, _, made => by
    obtain ⟨forms, given, same⟩ := ok_of_bind made
    cases same
    exact (areJson_iff forms).mpr (isJson_of_jsonItems items (depth + 1) given)
  | .set _ items, depth, _, _, made => by
    obtain ⟨forms, given, made⟩ := ok_of_bind made
    obtain ⟨-, -, same⟩ := ok_of_bind made
    cases same
    have each := isJson_of_jsonItems items (depth + 1) given
    -- Sorting moves the forms of the items only.
    exact (areJson_iff _).mpr fun form member => each form (List.mem_mergeSort.mp member)
  | .map entries, depth, _, _, made => by
    obtain ⟨forms, given, same⟩ := ok_of_bind made
    cases same
    exact haveJson_of_jsonEntries entries (depth + 1) given
  | .bytes _, _, _, _, made | .foreign, _, _, _, made | .node _ _ _ _ _ _, _, _, _, made
  | .sortKey _, _, _, _, made | .projection _, _, _, _, made => nomatch made
termination_by structural value => value

/-- The JSON forms of items are in JSON form. -/
theorem isJson_of_jsonItems : (items : List Value) → (depth : Nat) → {forms : List Value} →
    jsonItems depth items = .ok forms → ∀ form ∈ forms, form.isJson = true
  -- By induction on the items: each of them was given a form of its own.
  | [], _, _, made => by
    cases made
    exact List.forall_mem_nil _
  | item :: rest, depth, _, made => by
    unfold jsonItems at made
    split at made
    · exact nomatch made
    · obtain ⟨first, given, made⟩ := ok_of_bind made
      obtain ⟨others, given', made⟩ := ok_of_bind made
      cases made
      exact List.forall_mem_cons.mpr ⟨isJson_of_jsonForm item depth false given,
        isJson_of_jsonItems rest depth given'⟩
termination_by structural items => items

/-- The JSON forms of entries are in JSON form. -/
theorem haveJson_of_jsonEntries : (entries : List (Value × Value)) → (depth : Nat) →
    {forms : List (Value × Value)} → jsonEntries depth entries = .ok forms →
      haveJson forms = true
  -- By induction on the entries; only an entry with a text for a key has a form.
  | [], _, _, made => by
    cases made
    rfl
  | (key, value) :: rest, depth, _, made => by
    cases key with
    | text name =>
      unfold jsonEntries at made
      dsimp only at made
      split at made
      · exact nomatch made
      · obtain ⟨first, given, made⟩ := ok_of_bind made
        obtain ⟨others, given', made⟩ := ok_of_bind made
        cases made
        exact Bool.and_eq_true_iff.mpr ⟨isJson_of_jsonForm value depth false given,
          haveJson_of_jsonEntries rest depth given'⟩
    | _ => exact nomatch made
termination_by structural entries => entries

end

/-- Values in JSON form with one telling form are the same. -/
theorem eq_of_inspect {value value' : Value} (json : value.isJson = true)
    (json' : value'.isJson = true) (same : value.inspect = value'.inspect) : value = value' :=
  (isTold value json value' [] [] json' nofun nofun (by simp only [same])).1

end Value

end ContentQuery
