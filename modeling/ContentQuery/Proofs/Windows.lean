import ContentQuery.Proofs.Contentful.QueryString
import ContentQuery.Proofs.ExplicitLocale

/-! Windows of a result list: what a slice or a pair of parameters selects, and pages that tile. -/

namespace ContentQuery

open Compile (Yields)

/-- The results behind an offset, and no more of them than a bound allows. -/
def window {α : Type} (offset : Nat) (bound : Option Nat) (results : List α) : List α :=
  match bound with
  | none => results.drop offset
  | some limit => (results.drop offset).take limit

/-- The pages of one size in a row are the first results. -/
theorem flatten_pages {α : Type} (results : List α) (size count : Nat) :
    ((List.range count).map fun page => window (page * size) (some size) results).flatten =
      results.take (count * size) := by
  -- Each page starts where the pages before it end.
  induction count with
  | zero => simp
  | succ count ih =>
    rw [List.range_succ, List.map_append, List.flatten_append, ih, Nat.succ_mul, List.take_add]
    simp [window]

/-- Pages that are all delivered are delivered together. -/
theorem flatten_delivered {α : Type} {results : List α} {size count : Nat}
    {deliver : Nat → Option (List α)}
    (each : ∀ page < count, deliver page = some (window (page * size) (some size) results)) :
    ((List.range count).mapM deliver).map List.flatten = some (results.take (count * size)) := by
  rw [mapM_eq_some_map fun page member => each page (List.mem_range.mp member), Option.map_some,
    flatten_pages]

namespace Query

/-- The number of results that a query allows, by itself or by one of two defaults. -/
def bound (query : Query) (standard behindOffset : Option Nat) : Option Nat :=
  match query.limit, query.offset with
  | some limit, _ => some limit
  | none, none => standard
  | none, some _ => behindOffset

/-- Where both defaults are the same, one of them stands in for a limit that is not given. -/
theorem bound_same (query : Query) (standard : Nat) :
    query.bound (some standard) (some standard) = some (query.limit.getD standard) := by
  unfold bound
  cases query.limit <;> cases query.offset <;> rfl

/-- The query for one of the pages of a size. -/
def paged (query : Query) (size page : Nat) : Query :=
  { query with limit := some size, offset := some (page * size) }

end Query

namespace Groq

/-- The number that digits stand for, of which there have to be some. -/
def readPosition (chars : List Char) : Option Nat :=
  if !chars.isEmpty && chars.all Char.isDigit then some (Nat.ofDigitChars 10 chars 0) else none

/-- The slice that a text stands for. -/
def Slice.ofText? (text : String) : Option Slice :=
  let start := readPosition (text.toList.takeWhile Char.isDigit)
  match text.toList.dropWhile Char.isDigit with
  | [] => if text.isEmpty then some .whole else none
  | ['.', '.', '-', '1'] => start.map .openFrom
  | '.' :: '.' :: '.' :: stop => do return .between (← start) (← readPosition stop)
  | _ => none

/-- The results that a slice delivers: the position that it stops at is the first one left out. -/
def Slice.select {α : Type} (slice : Slice) (results : List α) : List α :=
  match slice with
  | .whole => results
  | .openFrom start => results.drop start
  | .between start stop => (results.take stop).drop start

/-- The results that a statement delivers of all, by the text of its slice. -/
def Statement.delivered {α : Type} (statement : Statement) (results : List α) : Option (List α) :=
  (Slice.ofText? statement.slice.text).map (·.select results)

/-- A number is read from its digits. -/
theorem readPosition_toString (number : Nat) :
    readPosition (toString number).toList = some number := by
  -- A number is written by digits, at least one, and the digits read back are the number.
  have digits : (toString number).toList = Nat.toDigits 10 number := String.toList_ofList
  have filled : (toString number).toList.isEmpty = false := by
    rw [digits, List.isEmpty_eq_false_iff]
    exact Nat.toDigits_ne_nil
  have each : (toString number).toList.all Char.isDigit = true :=
    List.all_eq_true.mpr fun c => isDigit_of_mem_toString
  rw [readPosition, each, filled, digits, Nat.ofDigitChars_ten_toDigits]
  rfl

/-- The digits in front of other characters are a number and what follows it. -/
theorem span_toString (number : Nat) (rest : List Char)
    (ends : rest.head?.all (!Char.isDigit ·) = true) :
    ((toString number).toList ++ rest).takeWhile Char.isDigit = (toString number).toList ∧
      ((toString number).toList ++ rest).dropWhile Char.isDigit = rest := by
  -- The digits of the number go up to what follows, which begins with none.
  have digits : ∀ c ∈ (toString number).toList, Char.isDigit c = true :=
    fun c => isDigit_of_mem_toString
  rw [List.takeWhile_append_of_pos digits, List.dropWhile_append_of_pos digits]
  cases rest with
  | nil => simp
  | cons c more =>
    have other : Char.isDigit c = false := by simpa using ends
    simp [other]

/-- A slice is read from its text. -/
theorem ofText_text (slice : Slice) : Slice.ofText? slice.text = some slice := by
  -- The start is read up to the dots; two of them close an open slice, and three come before the
  -- end.
  cases slice with
  | whole => rfl
  | openFrom start =>
    obtain ⟨front, behind⟩ := span_toString start "..-1".toList (by decide)
    have written : (Slice.openFrom start).text.toList = (toString start).toList ++ "..-1".toList :=
      String.toList_append
    unfold Slice.ofText?
    rw [written, front, behind, readPosition_toString]
    rfl
  | between start stop =>
    obtain ⟨front, behind⟩ := span_toString start
      ('.' :: '.' :: '.' :: (toString stop).toList) rfl
    have written : (Slice.between start stop).text.toList =
        (toString start).toList ++ '.' :: '.' :: '.' :: (toString stop).toList := by
      simp [Slice.text]
    unfold Slice.ofText?
    simp only [written, front, behind, readPosition_toString]
    rfl

/-- A slice is the one of the page that the query asks for. -/
theorem yields_convertSlice (settings : Settings) (query : Query) :
    (convertSlice settings query).Yields fun slice _ => slice = .ofPage (settings.page query) := by
  -- A note on the page may be left, but the slice is that of the page.
  unfold convertSlice
  dsimp only
  split
  · exact .noted (.written (.pure rfl))
  · exact .written (.pure rfl)

/-- A compiled statement has the slice of its query. -/
theorem slice_of_compile {settings : Settings} {query : Query} {conditions : List Condition}
    {compiled : Compiled Statement Value}
    (ran : compile settings query conditions = .ok compiled) :
    compiled.query.slice = .ofPage (settings.page query) := by
  obtain ⟨_, _, _, _, _, -, -, cut, -⟩ := stages_of_compile ran
  obtain ⟨-, -, same⟩ := yields_convertSlice settings query _ _ _ cut
  exact same

/-- The slice of a page delivers the window that is asked for. -/
theorem select_ofPage {α : Type} (settings : Settings) (query : Query) (results : List α) :
    (Slice.ofPage (settings.page query)).select results =
      window (query.offset.getD 0) (query.bound settings.defaultLimit none) results := by
  unfold Settings.page Query.page Query.bound
  -- An offset of zero without a limit is the whole list, and a slice otherwise stops at the end.
  cases limit : query.limit with
  | some count =>
    cases offset : query.offset <;>
      simp [Page.resolve, Slice.ofPage, Page.isWhole, Page.stop, Slice.select, window,
        List.drop_take]
  | none =>
    cases offset : query.offset with
    | some start =>
      by_cases zero : start = 0 <;>
        simp [Page.resolve, Slice.ofPage, Page.isWhole, Page.stop, Slice.select, window, zero]
    | none =>
      cases standard : settings.defaultLimit <;>
        simp [Page.resolve, Slice.ofPage, Page.isWhole, Page.stop, Slice.select, window]

/-- A statement delivers the window that its query asks for. -/
theorem delivered_of_compile {α : Type} {settings : Settings} {query : Query}
    {compiled : Compiled Statement Value}
    (built : (Compiler.groq settings).compileQuery query = .ok (.statement compiled))
    (results : List α) : compiled.query.delivered results =
      some (window (query.offset.getD 0) (query.bound settings.defaultLimit none) results) := by
  obtain ⟨own, -, converted⟩ := Compiler.conditions_of_compileQuery built
  rw [Statement.delivered, ofText_text, slice_of_compile (statement_of_output converted),
    Option.map_some, select_ofPage]

end Groq

namespace Contentful

/-- The number that a parameter is set to, where it is set; other values are none. -/
def countUnder? (parameters : OrderedMap Value Value) (name : String) : Option (Option Nat) :=
  match parameters.get? (.text name) with
  | none => some none
  | some (.int (.ofNat count)) => some (some count)
  | some _ => none

/-- The results that a service delivers of all: some are skipped, and up to a limit are taken. -/
def delivered {α : Type} (parameters : OrderedMap Value Value) (results : List α) :
    Option (List α) := do
  let skip ← countUnder? parameters "skip"
  let limit ← countUnder? parameters "limit"
  return window (skip.getD 0) limit results

/-- The window of a query, cut at the default limit. -/
theorem yields_windowOf (settings : Settings) (query : Query) :
    (windowOf settings query).Yields fun cut _ => cut =
      (query.offset.getD 0, query.bound settings.defaultLimit settings.defaultLimit) := by
  have same : ((settings.page query).offset, (settings.page query).limit.or settings.defaultLimit) =
      (query.offset.getD 0, query.bound settings.defaultLimit settings.defaultLimit) := by
    unfold Settings.page Query.page Query.bound
    cases query.limit <;> cases query.offset <;> simp [Page.resolve]
  unfold windowOf
  dsimp only
  -- A cursor is noted, and leaves the window as it is.
  split
  · exact .noted (.pure same)
  · exact .pure same

/-- The parameters beside a filter have the window of the query. -/
theorem yields_optionsOf_window (settings : Settings) (everyLocale : Value) (query : Query) :
    (optionsOf settings everyLocale query).Yields fun own _ =>
      own.get? (.text "skip") = (if query.offset.getD 0 = 0 then none
        else some (.int (query.offset.getD 0))) ∧
      own.get? (.text "limit") = (query.bound settings.defaultLimit settings.defaultLimit).map
        fun count => .int count := by
  refine .bind (steady_selectionOf settings query).yields fun selection _ _ => ?_
  refine .bind (steady_orderClauses query.order).yields fun clauses _ _ => ?_
  refine .bind (yields_windowOf settings query) fun window _ cut => ?_
  refine .bind (steady_localeOf settings everyLocale query).yields fun locale _ _ => ?_
  refine .bind (steady_includeOf settings query _).yields fun depth _ _ => .pure ?_
  subst cut
  have empty (name : String) :
      OrderedMap.get? (⟨[]⟩ : OrderedMap Value Value) (.text name) = none := rfl
  -- Each is found behind parameters of other names, and none of its name comes behind it.
  rw [← List.append_nil ( entry? "include" _)]
  simp only [List.append_assoc, entry?, Value.get?_optional, String.reduceEq, if_false, if_true,
    empty, Option.or_none, beq_iff_eq]
  refine ⟨trivial, ?_⟩
  cases query.bound settings.defaultLimit settings.defaultLimit <;> rfl

/-- A parameter beside the filter is found among all parameters as it is found by itself. -/
theorem get?_option {settings : Settings} {everyLocale : Value} {query : Query}
    {conditions : List Condition} {compiled : Request}
    (ran : compile settings everyLocale query conditions = .ok compiled) {name : String}
    (option : name ∈ optionNames) :
    (allParameters compiled).get? (.text name) = compiled.parameters.get? (.text name) := by
  -- No filter is written under the name of an option, so that the option is found behind all of
  -- them.
  have free : (filterParameters compiled).get? (.text name) = none := by
    rw [← OrderedMap.contains_eq_false, contains_filterParameters, inFilter_option ran option]
  have missing := Option.map_eq_none_iff.mp free
  unfold OrderedMap.get?
  rw [entries_allParameters ran, List.find?_append, missing, Option.none_or]

section Window

variable {settings : Settings} {everyLocale : Value} {query : Query} {compiled : Request}
  {standard : Nat} (bounded : settings.defaultLimit = some standard)
include bounded

/--
The window of a request is sent as it is asked for. Only a query that skips nothing may pass a skip
of its own through, which is then sent.
-/
theorem window_of_compile {conditions : List Condition}
    (ran : compile settings everyLocale query conditions = .ok compiled) :
    (allParameters compiled).get? (.text "skip") =
        (if query.offset.getD 0 = 0 then query.params.get? (.text "skip")
          else some (.int (query.offset.getD 0))) ∧
      (allParameters compiled).get? (.text "limit") = some (.int (query.limit.getD standard)) := by
  rw [get?_option ran (by decide), get?_option ran (by decide)]
  -- What is passed through is looked at behind the parameters that the window itself gives.
  have untaken := inFilter_option ran (show "skip" ∈ optionNames by decide)
  obtain ⟨last, gave, -⟩ := Compiled.ok_of_run (run_of_compile ran).1
  rw [convertQuery_eq] at gave
  obtain ⟨filter, _, -, gave⟩ := Compile.ok_of_bind gave
  obtain ⟨own, _, chosen, gave⟩ := Compile.ok_of_bind gave
  obtain ⟨parameters, _, passing, gave⟩ := Compile.ok_of_bind gave
  obtain ⟨-, -, skip, limit⟩ := yields_optionsOf_window _ _ _ _ _ _ chosen
  obtain ⟨-, -, same⟩ := (ensures_passThrough _ _ _ _ _).yields _ _ _ passing
  obtain ⟨rfl, shown⟩ : filter = compiled.query ∧ parameters = compiled.parameters :=
    Prod.mk.inj (Prod.mk.inj (Except.ok.inj gave)).1
  rw [← shown, same, get?_passed _ _ (Value.isDiscrete_text "skip"),
    get?_passed _ _ (Value.isDiscrete_text "limit"), skip, limit, bounded, query.bound_same,
    untaken]
  refine ⟨?_, rfl⟩
  split <;> simp

/-- A request delivers the window that its query asks for. -/
theorem delivered_of_compile {α : Type}
    (built : (Compiler.contentful settings everyLocale).compileQuery query =
      .ok (.request compiled))
    (unpassed : query.offset.getD 0 = 0 → query.params.get? (.text "skip") = none)
    (results : List α) : delivered (allParameters compiled) results =
      some (window (query.offset.getD 0) (query.bound (some standard) (some standard))
        results) := by
  obtain ⟨own, -, converted⟩ := Compiler.conditions_of_compileQuery built
  obtain ⟨skip, limit⟩ := window_of_compile bounded (request_of_output converted)
  -- A skip of zero is not sent, and is read as one of zero results.
  have skipped : (countUnder? (allParameters compiled) "skip").map (·.getD 0) =
      some (query.offset.getD 0) := by
    unfold countUnder?
    rw [skip]
    split_ifs with none_
    · rw [unpassed none_, none_]
      rfl
    · rfl
  have limited : countUnder? (allParameters compiled) "limit" =
      some (some (query.limit.getD standard)) := by
    unfold countUnder?
    rw [limit]
  obtain ⟨count, found, same⟩ := Option.map_eq_some_iff.mp skipped
  unfold delivered
  rw [found, limited, query.bound_same, ← same]
  rfl

end Window

end Contentful

namespace Compiler

/--
Windows are exact, and pages tile: a statement and a request deliver what is behind the offset, as
far as the limit goes; where there is neither, as far as the default goes; and where there is an
offset alone, all that is behind it on the one and as much as the default on the other. Pages of one
size in a row deliver the first results, each of them once.
-/
theorem windows_exact_and_tile {α : Type} (results : List α) {statements requests : Settings}
    {everyLocale : Value} {standard : Nat} (bounded : requests.defaultLimit = some standard) :
    (∀ query compiled, (groq statements).compileQuery query = .ok (.statement compiled) →
      compiled.query.delivered results = some (window (query.offset.getD 0)
        (query.bound statements.defaultLimit none) results)) ∧
    (∀ query compiled,
      (contentful requests everyLocale).compileQuery query = .ok (.request compiled) →
      (query.offset.getD 0 = 0 → query.params.get? (.text "skip") = none) →
        Contentful.delivered (Contentful.allParameters compiled) results =
          some (window (query.offset.getD 0) (query.bound (some standard) (some standard))
            results)) ∧
    (∀ (query : Query) (size count : Nat) (pages : Nat → Compiled Groq.Statement Value),
      (∀ page < count, (groq statements).compileQuery (query.paged size page) =
        .ok (.statement (pages page))) →
      ((List.range count).mapM fun page => (pages page).query.delivered results).map List.flatten =
        some (results.take (count * size))) ∧
    (∀ (query : Query) (size count : Nat) (pages : Nat → Contentful.Request),
      query.params.get? (.text "skip") = none →
      (∀ page < count, (contentful requests everyLocale).compileQuery (query.paged size page) =
        .ok (.request (pages page))) →
      ((List.range count).mapM fun page =>
          Contentful.delivered (Contentful.allParameters (pages page)) results).map List.flatten =
        some (results.take (count * size))) := by
  -- Each single window is exact, and windows that meet end to end cover what was asked for; on the
  -- second target the results may be skipped by a parameter of the caller's own, which has to be
  -- absent.
  refine ⟨fun query compiled built => Groq.delivered_of_compile built results,
    fun query compiled built unpassed =>
      Contentful.delivered_of_compile bounded built unpassed results, ?_, ?_⟩
  · intro query size count pages built
    exact flatten_delivered fun page within =>
      Groq.delivered_of_compile (built page within) results
  · intro query size count pages unpassed built
    exact flatten_delivered fun page within =>
      Contentful.delivered_of_compile bounded (built page within) (fun _ => unpassed) results

/-- The settings of compilers that deliver two results where no limit is asked for. -/
def pairSettings : Settings :=
  { Settings.standard with defaultLimit := some 2 }

/-- Behind three of seven results, a default of two cuts a request and no statement. -/
theorem windows_exact_and_tile_sevens :
    ∃ settings : Settings, settings.defaultLimit = some 2 ∧
      (∃ compiled, (groq settings).compileQuery { Query.everything with offset := some 3 } =
          .ok (.statement compiled) ∧
        compiled.query.delivered [1, 2, 3, 4, 5, 6, 7] = some [4, 5, 6, 7]) ∧
      (∃ compiled, (contentful settings .null).compileQuery
          { Query.everything with offset := some 3 } = .ok (.request compiled) ∧
        Contentful.delivered (Contentful.allParameters compiled) [1, 2, 3, 4, 5, 6, 7] =
          some [4, 5]) ∧
      (∃ pages : Nat → Compiled Groq.Statement Value,
        (∀ page < 2, (groq settings).compileQuery (Query.everything.paged 3 page) =
          .ok (.statement (pages page))) ∧
        ((List.range 2).mapM fun page =>
          (pages page).query.delivered [1, 2, 3, 4, 5, 6, 7]).map List.flatten =
            some [1, 2, 3, 4, 5, 6]) ∧
      ∃ pages : Nat → Contentful.Request,
        (∀ page < 2, (contentful settings .null).compileQuery (Query.everything.paged 3 page) =
          .ok (.request (pages page))) ∧
        ((List.range 2).mapM fun page => Contentful.delivered
          (Contentful.allParameters (pages page)) [1, 2, 3, 4, 5, 6, 7]).map List.flatten =
            some [1, 2, 3, 4, 5, 6] := by
  obtain ⟨one, built⟩ : ∃ compiled, (groq pairSettings).compileQuery
      { Query.everything with offset := some 3 } = .ok (.statement compiled) := ⟨_, rfl⟩
  obtain ⟨one', built'⟩ : ∃ compiled, (contentful pairSettings .null).compileQuery
      { Query.everything with offset := some 3 } = .ok (.request compiled) := ⟨_, rfl⟩
  -- A page that lies too far behind cannot be written, so that only the first two are compiled.
  have statements (page : Nat) : ∃ compiled, page < 2 → (groq pairSettings).compileQuery
      (Query.everything.paged 3 page) = .ok (.statement compiled) := by
    rcases page with - | - | page
    · exact ⟨_, fun _ => rfl⟩
    · exact ⟨_, fun _ => rfl⟩
    · exact ⟨one, fun within => absurd within (by omega)⟩
  have requests (page : Nat) : ∃ compiled, (contentful pairSettings .null).compileQuery
      (Query.everything.paged 3 page) = .ok (.request compiled) := ⟨_, rfl⟩
  choose pages paged using statements
  choose pages' paged' using requests
  obtain ⟨cut, cut', tile, tile'⟩ := @windows_exact_and_tile Nat [1, 2, 3, 4, 5, 6, 7]
    pairSettings pairSettings .null 2 rfl
  exact ⟨pairSettings, rfl, ⟨one, built, cut _ one built⟩,
    ⟨one', built', cut' _ one' built' fun _ => rfl⟩,
    ⟨pages, paged, tile _ 3 2 pages paged⟩,
    pages', fun page _ => paged' page, tile' _ 3 2 pages' rfl fun page _ => paged' page⟩

end Compiler

end ContentQuery
