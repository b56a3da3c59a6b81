import ContentQuery.Proofs.Groq.Slots
import ContentQuery.Proofs.JsonString

/-! How the text of a projection is read: as entries, some of which have further ones in braces. -/

namespace ContentQuery.Groq

/-- Characters without the blanks among them. -/
def unblanked (chars : List Char) : List Char :=
  chars.filter (!isBlank ·)

/-- An entry of a projection, read from its text without blanks. -/
inductive Entry where
  | bare (head : List Char)
  /-- Further entries in braces, behind what stands in front of these. -/
  | braced (head : List Char) (entries : List Entry)

namespace Entry

/-- What stands in front of the braces, or all there is. -/
def head : Entry → List Char
  | .bare head | .braced head _ => head

/-- The output key of an entry: a string in front of a colon, or else the head as it stands. -/
def key (entry : Entry) : String :=
  match Text.readString entry.head with
  | some (name, _) => name
  | none => String.ofList entry.head

/-- The levels that a head adds to a chain of expansions: one where it ends in an arrow. -/
def arrows (head : List Char) : Nat :=
  if ['-', '>'].isSuffixOf head then 1 else 0

mutual

/-- The longest chain of expansions in an entry. -/
def chain : Entry → Nat
  | .bare head => arrows head
  | .braced head entries => arrows head + deepest entries
termination_by structural input => input

/-- The longest chain of expansions in one of several entries. -/
def deepest : List Entry → Nat
  | [] => 0
  | entry :: rest => max (chain entry) (deepest rest)
termination_by structural input => input

end

end Entry

/-- How far the text of a projection has been read. -/
structure Scan where
  place : Place
  /-- The parentheses that are open, between which a comma separates no entries. -/
  calls : Nat
  /-- For each brace that is open, the entries before it and the head in front of it. -/
  opened : List (List Entry × List Char)
  /-- The entries behind the last open brace that are complete. -/
  entries : List Entry
  current : Entry

namespace Scan

/-- Takes a character over into the head of the current entry. -/
def write (scan : Scan) (c : Char) : Option Scan :=
  match scan.current with
  | .bare head => some { scan with place := scan.place.next c, current := .bare (head ++ [c]) }
  | .braced _ _ => none

/-- The complete entries with the current one, if anything of it has been read. -/
def completed (scan : Scan) : List Entry :=
  match scan.current with
  | .bare [] => scan.entries
  | entry => scan.entries ++ [entry]

/-- Opens a brace behind the head of the current entry. -/
def descend (scan : Scan) : Option Scan :=
  match scan.current with
  | .bare head => some ⟨.outside, 0, (scan.entries, head) :: scan.opened, [], .bare []⟩
  | .braced _ _ => none

/-- Closes the last open brace. -/
def ascend (scan : Scan) : Option Scan :=
  match scan.opened with
  | (entries, head) :: opened =>
    some ⟨.outside, 0, opened, entries, .braced head scan.completed⟩
  | [] => none

/-- Reads one character. -/
def step (scan : Scan) (c : Char) : Option Scan :=
  -- Literals are taken over as they stand, with blanks and brackets in them.
  if scan.place ≠ .outside ∨ isQuote c then scan.write c
  else if isBlank c then some scan
  else if c = '(' then write { scan with calls := scan.calls + 1 } c
  else if scan.calls ≠ 0 then
    if c = ')' then write { scan with calls := scan.calls - 1 } c else scan.write c
  else if c = '{' then scan.descend
  else if c = '}' then scan.ascend
  else if c = ',' then some { scan with entries := scan.completed, current := .bare [] }
  else scan.write c

/-- Reads characters in order. -/
def run (scan : Scan) (chars : List Char) : Option Scan :=
  chars.foldlM step scan

theorem run_cons (scan : Scan) (c : Char) (chars : List Char) :
    scan.run (c :: chars) = (scan.step c).bind (run · chars) :=
  List.foldlM_cons

theorem run_append (scan : Scan) (first second : List Char) :
    scan.run (first ++ second) = (scan.run first).bind (run · second) :=
  List.foldlM_append

end Scan

/-- Reads the entries of a projection, which stand in braces, from its text. -/
def readProjection (text : String) : Option (List Entry) :=
  match Scan.run ⟨.outside, 0, [], [], .bare []⟩ text.toList with
  | some ⟨.outside, 0, [], [], .braced [] entries⟩ => some entries
  | _ => none

section Heads

/-- Characters of which some are taken over into the head of an entry, in a call or not. -/
def Writes (chars written : List Char) : Prop :=
  ∀ calls opened entries head,
    Scan.run ⟨.outside, calls, opened, entries, .bare head⟩ chars =
      some ⟨.outside, calls, opened, entries, .bare (head ++ written)⟩

/-- The characters that open or close a literal or a call. -/
def spanMarks : List Char :=
  ['"', '\'', '(', ')']

/-- The characters that separate entries where no call is open. -/
def entryMarks : List Char :=
  ['{', '}', ',']

/-- Any other character is taken over unless it is a blank. -/
theorem step_plain {c : Char} (plain : c ∉ spanMarks) {calls : Nat}
    (inCall : calls ≠ 0 ∨ c ∉ entryMarks) (opened : List (List Entry × List Char))
    (entries : List Entry) (head : List Char) :
    Scan.step ⟨.outside, calls, opened, entries, .bare head⟩ c =
      some ⟨.outside, calls, opened, entries, .bare (head ++ unblanked [c])⟩ := by
  obtain ⟨noDouble, noSingle, noOpen, noClose⟩ : c ≠ '"' ∧ c ≠ '\'' ∧ c ≠ '(' ∧ c ≠ ')' := by
    simpa [spanMarks] using plain
  have unquoted : isQuote c = false := by simp [isQuote, noDouble, noSingle]
  have outside : Place.next .outside c = .outside := by simp [Place.next, unquoted]
  -- A blank is passed over, and in a call a mark that separates entries is taken like any other.
  cases blank : isBlank c with
  | true => simp [Scan.step, unquoted, blank, unblanked]
  | false =>
    rcases inCall with some_ | other
    · simp [Scan.step, Scan.write, unquoted, outside, blank, unblanked, noOpen, noClose, some_]
    · have separates : c ≠ '{' ∧ c ≠ '}' ∧ c ≠ ',' := by simpa [entryMarks] using other
      simp [Scan.step, Scan.write, unquoted, outside, blank, unblanked, noOpen, noClose, separates]

/-- So are several characters, in order. -/
theorem run_plain {chars : List Char} (plain : ∀ c ∈ chars, c ∉ spanMarks) {calls : Nat}
    (inCall : calls ≠ 0 ∨ ∀ c ∈ chars, c ∉ entryMarks) (opened : List (List Entry × List Char))
    (entries : List Entry) (head : List Char) :
    Scan.run ⟨.outside, calls, opened, entries, .bare head⟩ chars =
      some ⟨.outside, calls, opened, entries, .bare (head ++ unblanked chars)⟩ := by
  induction chars generalizing head with
  | nil => simp [Scan.run, unblanked]
  | cons c rest ih =>
    obtain ⟨here, later⟩ := List.forall_mem_cons.mp plain
    -- Whether a call is open does not change on the way.
    have split_ : (calls ≠ 0 ∨ c ∉ entryMarks) ∧ (calls ≠ 0 ∨ ∀ c ∈ rest, c ∉ entryMarks) := by
      rcases inCall with some_ | others
      · exact ⟨Or.inl some_, Or.inl some_⟩
      · exact (List.forall_mem_cons.mp others).imp Or.inr Or.inr
    rw [Scan.run_cons, step_plain here split_.1, Option.bind_some, ih later split_.2,
      List.append_assoc, unblanked, unblanked, ← List.filter_append, List.singleton_append]
    rfl

namespace Writes

variable {first second written written' : List Char}

/-- What two parts in a row have taken over stands in a row. -/
theorem append (left : Writes first written) (right : Writes second written') :
    Writes (first ++ second) (written ++ written') := by
  intro calls opened entries head
  rw [Scan.run_append, left, Option.bind_some, right, List.append_assoc]

/-- Characters without marks are taken over, but for the blanks among them. -/
theorem plain {chars : List Char} (unmarked : ∀ c ∈ chars, c ∉ spanMarks ++ entryMarks) :
    Writes chars (unblanked chars) := by
  -- Without a mark the reading stays where it is, and only the blanks are left out.
  intro calls opened entries head
  refine run_plain (fun c member marked => ?_) (Or.inr fun c member marked => ?_) _ _ _
  · exact unmarked c member (List.mem_append_left _ marked)
  · exact unmarked c member (List.mem_append_right _ marked)

/-- So are those of a text that is written out. -/
theorem literal {chars : List Char} (unmarked : chars.all (· ∉ spanMarks ++ entryMarks) = true) :
    Writes chars (unblanked chars) :=
  plain fun c member => by simpa using List.all_eq_true.mp unmarked c member

/-- So are characters of paths and names. -/
theorem pathChars {chars : List Char} (accepted : ∀ c ∈ chars, isPathChar c = true) :
    Writes chars (unblanked chars) :=
  plain fun c member => not_mem_of_class (by decide) (accepted c member)

/-- A JSON string is taken over as it stands. -/
theorem jsonString (text : String) :
    Writes (Text.jsonString text).toList (Text.jsonString text).toList := by
  intro calls opened entries head
  -- Between its quotes no character ends the literal, unless it stands behind a backslash.
  have inside {chars : List Char} (quotable : Quotable chars) (head : List Char) :
      Scan.run ⟨.inside '"', calls, opened, entries, .bare head⟩ chars =
        some ⟨.inside '"', calls, opened, entries, .bare (head ++ chars)⟩ := by
    induction quotable generalizing head with
    | nil => simp [Scan.run]
    | plain unquoted unescaped _ ih =>
      simp [Scan.run_cons, Scan.step, Scan.write, Place.next, unquoted, unescaped, ih]
    | escaped c _ ih => simp [Scan.run_cons, Scan.step, Scan.write, Place.next, ih]
  rw [toList_jsonString, Scan.run_cons]
  show (Scan.run ⟨.inside '"', calls, opened, entries, .bare (head ++ ['"'])⟩ _) = _
  rw [Scan.run_append, inside (quotable_jsonChars _), Option.bind_some]
  simp [Scan.run, Scan.step, Scan.write, Place.next]

/-- A call is taken over with the commas in it. -/
theorem call {arguments : List Char} (plain : ∀ c ∈ arguments, c ∉ spanMarks) :
    Writes ('(' :: (arguments ++ [')'])) ('(' :: (unblanked arguments ++ [')'])) := by
  intro calls opened entries head
  have started : Scan.step ⟨.outside, calls, opened, entries, .bare head⟩ '(' =
      some ⟨.outside, calls + 1, opened, entries, .bare (head ++ ['('])⟩ := rfl
  -- The parenthesis that closes the call leaves as many open as there were before it.
  have ended (head : List Char) :
      Scan.step ⟨.outside, calls + 1, opened, entries, .bare head⟩ ')' =
        some ⟨.outside, calls, opened, entries, .bare (head ++ [')'])⟩ := rfl
  rw [Scan.run_cons, started, Option.bind_some, Scan.run_append,
    run_plain plain (Or.inl (Nat.succ_ne_zero calls)), Option.bind_some, Scan.run_cons, ended]
  simp [Scan.run]

end Writes

end Heads

section Entries

/-- Characters that an entry is read from, whatever was read before it. -/
structure Spells (chars : List Char) (entry : Entry) : Prop where
  run (opened : List (List Entry × List Char)) (entries : List Entry) :
    Scan.run ⟨.outside, 0, opened, entries, .bare []⟩ chars =
      some ⟨.outside, 0, opened, entries, entry⟩
  occupied : entry ≠ .bare []

/-- An entry that was read is complete with what separates it from the next. -/
theorem Scan.completed_of_occupied {entry : Entry} (occupied : entry ≠ .bare []) (place : Place)
    (calls : Nat) (opened : List (List Entry × List Char)) (entries : List Entry) :
    completed ⟨place, calls, opened, entries, entry⟩ = entries ++ [entry] := by
  unfold completed
  split
  · exact absurd ‹_› occupied
  · rfl

/-- What is taken over into a head spells an entry without braces. -/
theorem Writes.spells {chars written : List Char} (writes : Writes chars written)
    (occupied : written ≠ []) : Spells chars (.bare written) where
  run opened entries := by rw [writes, List.nil_append]
  occupied same := occupied (Entry.bare.inj same)

variable {α : Type} {parts : List α} {write : α → List Char} {read : α → Entry}

/-- Entries with commas between them are read up to the brace that closes them. -/
theorem run_entries (spelled : ∀ part ∈ parts, Spells (write part) (read part))
    (opened : List (List Entry × List Char)) (before entries : List Entry) (head : List Char) :
    Scan.run ⟨.outside, 0, (before, head) :: opened, entries, .bare []⟩
        (", ".toList.intercalate (parts.map write) ++ ['}']) =
      some ⟨.outside, 0, opened, before, .braced head (entries ++ parts.map read)⟩ := by
  -- The brace goes back to what was before it, with what was completed inside.
  have closed (entries : List Entry) (current : Entry) :
      Scan.run ⟨.outside, 0, (before, head) :: opened, entries, current⟩ ['}'] =
        some ⟨.outside, 0, opened, before, .braced head
          (Scan.completed ⟨.outside, 0, (before, head) :: opened, entries, current⟩)⟩ := rfl
  induction parts generalizing entries with
  | nil => exact (closed entries _).trans (by simp [Scan.completed])
  | cons first rest ih =>
    obtain ⟨here, later⟩ := List.forall_mem_cons.mp spelled
    cases rest with
    | nil =>
      rw [List.map_singleton, List.intercalate_singleton, Scan.run_append, here.run,
        Option.bind_some, closed, Scan.completed_of_occupied here.occupied, List.map_singleton]
    | cons second more =>
      -- The comma makes the first entry one of the complete ones, and the blank is passed over.
      have separated (rest : List Char) :
          Scan.run ⟨.outside, 0, (before, head) :: opened, entries, read first⟩
              (", ".toList ++ rest) =
            Scan.run ⟨.outside, 0, (before, head) :: opened, entries ++ [read first], .bare []⟩
              rest := by
        rw [← Scan.completed_of_occupied here.occupied .outside 0 ((before, head) :: opened)]
        rfl
      rw [List.map_cons, List.map_cons, List.intercalate_cons_cons, List.append_assoc,
        List.append_assoc, Scan.run_append, here.run, Option.bind_some, separated,
        ← List.map_cons (f := write), ih later, List.append_assoc]
      rfl

variable (write read) in
/-- A head in front of entries in braces spells an entry with these. -/
theorem Writes.spells_braced {chars written : List Char} (writes : Writes chars written)
    (spelled : ∀ part ∈ parts, Spells (write part) (read part)) :
    Spells (chars ++ '{' :: (", ".toList.intercalate (parts.map write) ++ ['}']))
      (.braced written (parts.map read)) where
  run opened entries := by
    -- The brace opens a list of entries one level down, and the closing one puts it back behind its
    -- head.
    have descended : Scan.step ⟨.outside, 0, opened, entries, .bare written⟩ '{' =
        some ⟨.outside, 0, (entries, written) :: opened, [], .bare []⟩ := rfl
    rw [Scan.run_append, writes, Option.bind_some, List.nil_append, Scan.run_cons, descended,
      Option.bind_some, run_entries spelled, List.nil_append]
  occupied := nofun

end Entries

end ContentQuery.Groq
