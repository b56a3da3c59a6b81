import ContentQuery.Proofs.Contentful.Alternatives
import Mathlib.Data.List.Forall2

/-! Lists of values in one parameter: what is read back at their commas, and what is lost before. -/

namespace ContentQuery

namespace Parameter

/--
The texts that a literal is sent as: those of the items of a list, a tuple or a set in their order,
and that of any other literal by itself.
-/
def formsOf (value : Value) : Except FormatFault (List String) :=
  match value.orderedItems? with
  | some items => items.mapM item
  | none => (ofValue value).map fun parameter => [parameter.sent]

/-- A literal is sent as its forms with commas between them, and no form of an item has a comma. -/
theorem sent_of_formsOf {value : Value} {parameter : Parameter}
    (made : ofValue value = .ok parameter) :
    ∃ forms, formsOf value = .ok forms ∧ forms ≠ [] ∧
      parameter.sent = ",".intercalate forms ∧
        (value.orderedItems?.isSome = true → ∀ form ∈ forms, ',' ∉ form.toList) := by
  unfold formsOf
  cases listed : value.orderedItems? with
  | none =>
    -- A single form has no comma next to it.
    refine ⟨[parameter.sent], ?_, List.cons_ne_nil _ _, ?_, nofun⟩
    · simp [made, Except.map]
    · rw [String.intercalate_singleton]
  | some items =>
    obtain ⟨-, -, made⟩ := ok_of_bind made
    have joined : ofItems items = .ok parameter := by
      simpa [listed] using made
    obtain ⟨forms, given, rfl, some_, whole⟩ := parts_of_ofItems joined
    exact ⟨forms, given, some_, rfl, fun _ => whole⟩

end Parameter

namespace Contentful

open Compile (Ensures)

section Decoding

/-- What is read between commas has no comma. -/
theorem comma_not_mem_itemsOf {sent form : String} (member : form ∈ itemsOf sent) :
    ',' ∉ form.toList := by
  have apart (characters : List Char) :
      ∀ part ∈ characters.splitOnP (· == ','), ',' ∉ part := by
    induction characters with
    | nil => simp
    | cons first rest ih =>
      rw [List.splitOnP_cons_eq_if_modifyHead]
      by_cases comma : (first == ',') = true
      · rw [if_pos comma]
        exact List.forall_mem_cons.mpr ⟨List.not_mem_nil, ih⟩
      · rw [if_neg comma]
        -- The first character is put in front of the first part, and is no comma.
        cases parts : rest.splitOnP (· == ',') with
        | nil => simp
        | cons part others =>
          rw [parts] at ih
          obtain ⟨here, behind⟩ := List.forall_mem_cons.mp ih
          refine List.forall_mem_cons.mpr ⟨?_, behind⟩
          have other : ',' ≠ first := fun same => comma (beq_iff_eq.mpr same.symm)
          simpa [other] using here
  obtain ⟨part, inside, rfl⟩ := List.mem_map.mp member
  rw [String.toList_ofList]
  exact apart sent.toList part inside

/-- Joined texts are read back exactly where none of them has a comma. -/
theorem itemsOf_intercalate_iff {forms : List String} (some_ : forms ≠ []) :
    itemsOf (",".intercalate forms) = forms ↔ ∀ form ∈ forms, ',' ∉ form.toList := by
  -- Splitting at the commas gives parts without one.
  constructor
  · intro same form member
    rw [← same] at member
    exact comma_not_mem_itemsOf member
  · exact itemsOf_intercalate some_

end Decoding

section Lists

/-- The operators whose parameter is a list of values. -/
def listOperators : List Operator :=
  [.oneOf, .noneOf, .contains, .containsAny, .containsAll]

/-- They are all compared alike: their literal is the entry under the key with their suffix. -/
theorem compared_of_listOperator {operator : Operator} (listed : operator ∈ listOperators) :
    ∃ suffix, suffix? operator = some suffix ∧
      (∀ field value, convertLeaf field (.known operator) value =
        convertComparison field operator suffix value) ∧
      ∀ path value, entryOf path operator suffix value =
        (Parameter.ofValue value).map (fieldKey path ++ suffix, ·) := by
  simp only [listOperators, List.mem_cons, List.not_mem_nil, or_false] at listed
  rcases listed with rfl | rfl | rfl | rfl | rfl <;>
    exact ⟨_, rfl, fun _ _ => rfl, fun _ _ => rfl⟩

/-- A comparison that leaves no notice has an entry. -/
theorem entry_of_silent {path : String} {operator : Operator} {suffix : String} {value : Value}
    {map : FilterMap}
    (gives : (convertComparison (.text path) operator suffix value).Gives map []) :
    ∃ entry, entryOf path operator suffix value = .ok entry ∧ map = ⟨[entry]⟩ := by
  have kept : (convertComparison (.text path) operator suffix value).Ensures
      fun map notices => notices = [] →
        ∃ entry, entryOf path operator suffix value = .ok entry ∧ map = ⟨[entry]⟩ := by
    -- What is lost is noted, and nothing was noted.
    refine ensures_comparison (fun _ lost none_ => absurd none_ lost.ne_nil)
      fun path' entry named _ made _ => ?_
    obtain rfl := Value.text.inj named
    exact ⟨entry, made, rfl⟩
  exact kept.of_gives gives rfl

/--
A leaf whose operator takes a list of values is sent, where it leaves no notice, as the forms of its
literal with commas between them. They are read back at the commas exactly when none of them has a
comma, as no form of a list has. Two literals without commas in their forms have the same text only
if their forms are the same.
-/
theorem comma_lists_decode {path : String} {operator : Operator} {value : Value} {map : FilterMap}
    (listed : operator ∈ listOperators)
    (gives : (convertLeaf (.text path) (.known operator) value).Gives map []) :
    ∃ suffix parameter forms, suffix? operator = some suffix ∧
      map = single (fieldKey path ++ suffix) parameter ∧
      Parameter.formsOf value = .ok forms ∧ parameter.sent = ",".intercalate forms ∧
      (itemsOf parameter.sent = forms ↔ ∀ form ∈ forms, ',' ∉ form.toList) ∧
      (value.orderedItems?.isSome = true → ∀ form ∈ forms, ',' ∉ form.toList) ∧
      ∀ other parameter' forms',
        (convertLeaf (.text path) (.known operator) other).Gives
            (single (fieldKey path ++ suffix) parameter') [] →
          Parameter.formsOf other = .ok forms' → parameter'.sent = parameter.sent →
            (∀ form ∈ forms, ',' ∉ form.toList) → (∀ form ∈ forms', ',' ∉ form.toList) →
              forms' = forms := by
  obtain ⟨suffix, named, compared, entries⟩ := compared_of_listOperator listed
  -- What is sent of any literal are its forms.
  have sent {literal : Value} {map : FilterMap}
      (gives : (convertLeaf (.text path) (.known operator) literal).Gives map []) :
      ∃ parameter forms, map = single (fieldKey path ++ suffix) parameter ∧
        Parameter.formsOf literal = .ok forms ∧ forms ≠ [] ∧
        parameter.sent = ",".intercalate forms ∧
        (literal.orderedItems?.isSome = true → ∀ form ∈ forms, ',' ∉ form.toList) := by
    rw [compared] at gives
    obtain ⟨entry, made, rfl⟩ := entry_of_silent gives
    rw [entries] at made
    obtain ⟨parameter, given, rfl⟩ := exists_of_map made
    obtain ⟨forms, formed⟩ := Parameter.sent_of_formsOf given
    exact ⟨parameter, forms, rfl, formed⟩
  obtain ⟨parameter, forms, rfl, formed, some_, joined, whole⟩ := sent gives
  refine ⟨suffix, parameter, forms, named, rfl, formed, joined, ?_, whole, ?_⟩
  · rw [joined]
    exact itemsOf_intercalate_iff some_
  · intro other parameter' forms' gives' formed' same clean clean'
    -- Both are read back from their text, and the texts are the same.
    obtain ⟨parameter'', forms'', alike, formed'', some'', joined'', -⟩ := sent gives'
    obtain rfl : forms'' = forms' := Except.ok.inj (formed''.symm.trans formed')
    obtain rfl : parameter' = parameter'' := by
      simpa [single] using alike
    rw [← itemsOf_intercalate some'' clean', ← joined'', same, joined,
      itemsOf_intercalate some_ clean]

/-- A list of two texts is read back as these texts. -/
theorem comma_lists_decode_tags :
    ∃ parameter,
      (convertLeaf (.text "tags") (.known .oneOf) (.list [.text "a", .text "b"])).Gives
        (single "fields.tags[in]" parameter) [] ∧ itemsOf parameter.sent = ["a", "b"] := by
  -- The parameter of the one entry is read off the map.
  have gives : (convertLeaf (.text "tags") (.known .oneOf) (.list [.text "a", .text "b"])).Gives
      (single "fields.tags[in]" (.text "a,b")) [] := Compile.gives_pure _
  obtain ⟨suffix, parameter, forms, -, same, formed, -, decodes, whole, -⟩ :=
    comma_lists_decode (by decide) gives
  obtain rfl : ["a", "b"] = forms := Except.ok.inj formed
  obtain rfl : .text "a,b" = parameter := by
    simp only [single, OrderedMap.mk.injEq, List.cons.injEq, Prod.mk.injEq] at same
    exact same.1.2
  exact ⟨_, gives, decodes.mpr (whole rfl)⟩

/-- A text with a comma is sent like the list of its parts, and is read back as that list. -/
theorem comma_in_text_divides :
    ∃ compiled compiled',
      (Compiler.contentful Settings.standard .null).compileQuery
          { Query.everything with
            filter := [.leaf (.text "tags") (.text "in") (.text "a,b")] } =
          .ok (.request compiled) ∧
        (Compiler.contentful Settings.standard .null).compileQuery
          { Query.everything with
            filter := [.leaf (.text "tags") (.text "in") (.list [.text "a", .text "b"])] } =
          .ok (.request compiled') ∧
        compiled.notices = [] ∧ compiled.query = compiled'.query ∧
          compiled.query.get? "fields.tags[in]" = some (.text "a,b") ∧
            itemsOf "a,b" = ["a", "b"] := by
  refine ⟨_, _, rfl, rfl, rfl, rfl, rfl, ?_⟩
  exact itemsOf_intercalate (List.cons_ne_nil "a" ["b"]) (by decide)

end Lists

section Alternatives

/-- What a branch allows on a field: the literal of an equality, or the items of a list. -/
inductive Allows (path : String) : Condition → List Value → Prop where
  | equal {value : Value} (there : value.isNull = false) :
    Allows path (.leaf (.text path) (.known .equal) value) [value]
  | list (items : List Value) : Allows path (.leaf (.text path) (.known .oneOf) (.list items)) items
  | tuple (items : List Value) :
    Allows path (.leaf (.text path) (.known .oneOf) (.tuple items)) items

variable {path : String} {branches : List Condition} {values : List (List Value)}

/-- Such a branch is a leaf on the field, and the values that it allows are taken from it. -/
theorem Allows.read {branch : Condition} {items : List Value} (allows : Allows path branch items) :
    branch.field = .text path ∧ branch.alwaysTrue = false ∧
      allowedValues? (.text path) branch = some items := by
  have same : (Value.text path == .text path) = true :=
    ((Value.isDiscrete_text path).left _).mpr rfl
  have taken : ((Value.text path).isNull || !(Value.text path == .text path)) = false := by
    rw [same]
    rfl
  cases allows with
  | @equal value there =>
    refine ⟨rfl, rfl, ?_⟩
    -- Null is the one literal whose equality allows nothing.
    cases value <;> first | exact absurd there (by decide) | simp [allowedValues?, taken]
  | list items =>
    refine ⟨rfl, rfl, ?_⟩
    simp [allowedValues?, taken]
  | tuple items =>
    refine ⟨rfl, rfl, ?_⟩
    simp [allowedValues?, taken]

/-- Adding values in turn keeps the first of equal ones. -/
theorem addNew_nil (items : List Value) : addNew [] items = items.eraseDups := by
  -- Both go through the items, and one of them has what it keeps in reverse order.
  have loop (items known : List Value) :
      List.eraseDupsBy.loop (· == ·) items known = addNew known.reverse items := by
    induction items generalizing known with
    | nil => rfl
    | cons item rest ih =>
      unfold List.eraseDupsBy.loop
      show _ = addNew
        (if known.reverse.contains item then known.reverse else known.reverse ++ [item]) rest
      rw [List.contains_eq_any_beq, List.any_reverse]
      cases known.any fun other => item == other with
      | true => exact ih known
      | false =>
        rw [← List.reverse_cons]
        exact ih (item :: known)
  exact (loop items []).symm

/-- The values that branches on one field allow together are all of theirs, equal ones once. -/
theorem allowedTogether_of_allows (allows : List.Forall₂ (Allows path) branches values) :
    allowedTogether? (.text path) branches = some values.flatten.eraseDups := by
  rw [← addNew_nil]
  unfold allowedTogether?
  -- The values that are known grow, so that they are general in the induction.
  generalize ([] : List Value) = known
  induction allows generalizing known with
  | nil => rfl
  | cons first _ ih =>
    rw [List.foldlM_cons, first.read.2.2]
    show List.foldlM _ (addNew known _) _ = _
    rw [ih]
    simp [addNew, List.foldl_append]

/-- None of the branches constrains nothing. -/
theorem not_alwaysTrue_of_allows (allows : List.Forall₂ (Allows path) branches values) :
    branches.any Condition.alwaysTrue = false := by
  induction allows with
  | nil => rfl
  | cons here _ ih => rw [List.any_cons, here.read.2.1, ih, Bool.false_or]

/-- Two branches or more on one field are converted to a membership in all of their values. -/
theorem convert_of_allows (several : 2 ≤ branches.length)
    (allows : List.Forall₂ (Allows path) branches values) :
    convert (.any branches) = convertMembership (.text path) values.flatten.eraseDups := by
  have together := allowedTogether_of_allows allows
  have bound := not_alwaysTrue_of_allows allows
  match branches, allows with
  | [], _ => exact nomatch several
  | [_], _ => exact absurd several (Nat.lt_irrefl 1)
  | first :: second :: rest, .cons here _ =>
    -- Several branches are a membership where their values can be gathered, as here.
    unfold convert
    rw [bound, here.read.1, together]
    rfl

/-- A membership that leaves no notice has the parameter of its values as its entry. -/
theorem entry_of_membership {items : List Value} {map : FilterMap}
    (gives : (convertMembership (.text path) items).Gives map []) :
    ∃ parameter, Parameter.ofItems items = .ok parameter ∧
      map = single (fieldKey path ++ "[in]") parameter := by
  -- Without a notice the field was a path and the items were written.
  have kept : (convertMembership (.text path) items).Ensures fun map notices =>
      notices = [] → ∃ parameter, Parameter.ofItems items = .ok parameter ∧
        map = single (fieldKey path ++ "[in]") parameter := by
    refine .bind (ensures_path (.text path) _) fun found notices named => ?_
    rcases named with ⟨rfl, lost⟩ | ⟨name, rfl, same, -, rfl⟩
    · exact .pure fun none_ => absurd (List.append_eq_nil_iff.mp none_).1 lost.ne_nil
    · obtain rfl := Value.text.inj same
      dsimp only
      split
      · rename_i parameter made
        exact .pure fun _ => ⟨parameter, made, rfl⟩
      · exact .written (ensures_dropped (by decide) fun _ lost none_ => absurd none_ lost.ne_nil)
  exact kept.of_gives gives rfl

/--
Alternatives on one field, where they leave no notice, are sent as one list. Each item of it is the
form of one of their values, and no value goes missing but one that equals a value that is sent.
Where equal values have equal forms, the items are the forms of all values. They stand in the order
of the values, of which equal ones are sent once; which members of enumerations are the same one is
not known, so that this is said where there are none.
-/
theorem alternatives_sent_once_each (several : 2 ≤ branches.length)
    (allows : List.Forall₂ (Allows path) branches values) {map : FilterMap}
    (gives : (convert (.any branches)).Gives map []) :
    ∃ sent, map = single (fieldKey path ++ "[in]") (.text sent) ∧
      (∀ form ∈ itemsOf sent, ∃ value ∈ values.flatten, Parameter.item value = .ok form) ∧
      (∀ value ∈ values.flatten, ∃ kept ∈ values.flatten,
        (value = kept ∨ (value == kept) = true) ∧
          ∃ form ∈ itemsOf sent, Parameter.item kept = .ok form) ∧
      ((∀ value ∈ values.flatten, ∀ other ∈ values.flatten,
          (value == other) = true → Parameter.item value = Parameter.item other) →
        ∀ form, form ∈ itemsOf sent ↔
          ∃ value ∈ values.flatten, Parameter.item value = .ok form) ∧
      ((∀ inner, .member inner ∉ values.flatten) →
        values.flatten.eraseDups.mapM Parameter.item = .ok (itemsOf sent)) := by
  rw [convert_of_allows several allows] at gives
  obtain ⟨parameter, made, rfl⟩ := entry_of_membership gives
  obtain ⟨forms, given, rfl, filled, whole⟩ := Parameter.parts_of_ofItems made
  obtain ⟨each, back⟩ := mem_of_mapM given
  -- No form has a comma, so that the text is read back as the forms.
  have read : itemsOf (",".intercalate forms) = forms := itemsOf_intercalate filled whole
  have among (value : Value) (member : value ∈ values.flatten.eraseDups) :
      value ∈ values.flatten := by
    rw [← addNew_nil] at member
    exact (of_mem_addNew member).resolve_left List.not_mem_nil
  have sound (form : String) (member : form ∈ forms) :
      ∃ value ∈ values.flatten, Parameter.item value = .ok form := by
    obtain ⟨value, inside, sendable⟩ := back form member
    exact ⟨value, among value inside, sendable⟩
  have kept (value : Value) (member : value ∈ values.flatten) :
      ∃ kept ∈ values.flatten, (value = kept ∨ (value == kept) = true) ∧
        ∃ form ∈ forms, Parameter.item kept = .ok form := by
    obtain ⟨kept, there, equal⟩ : ∃ kept ∈ values.flatten.eraseDups,
        value = kept ∨ (value == kept) = true := by
      rw [← addNew_nil]
      exact covered_addNew [] member
    exact ⟨kept, among kept there, equal, each kept there⟩
  refine ⟨_, rfl, ?_⟩
  rw [read]
  refine ⟨sound, kept, fun alike form => ⟨sound form, ?_⟩, fun _ => given⟩
  rintro ⟨value, inside, sendable⟩
  -- The value that was kept in its place has the same form.
  obtain ⟨other, there, equal, form', member, sent⟩ := kept value inside
  have same : Parameter.item other = .ok form := by
    rcases equal with rfl | equal
    · exact sendable
    · rw [← alike value inside other there equal]
      exact sendable
  obtain rfl : form' = form := Except.ok.inj (sent.symm.trans same)
  exact member

/-- A level that is asked for twice is sent once. -/
theorem alternatives_sent_once_each_levels :
    ∃ sent,
      (convert (.any [.leaf (.text "level") (.known .equal) (.int 1),
        .leaf (.text "level") (.known .oneOf) (.list [.int 2, .int 1])])).Gives
          (single "fields.level[in]" (.text sent)) [] ∧ itemsOf sent = ["1", "2"] := by
  have gives : (convert (.any [.leaf (.text "level") (.known .equal) (.int 1),
      .leaf (.text "level") (.known .oneOf) (.list [.int 2, .int 1])])).Gives
        (single "fields.level[in]" (.text "1,2")) [] := Compile.gives_pure _
  obtain ⟨sent, same, -, -, -, listed⟩ :=
    alternatives_sent_once_each (by decide) (.cons (.equal rfl) (.cons (.list _) .nil)) gives
  obtain rfl : "1,2" = sent := by
    simp only [single, OrderedMap.mk.injEq, List.cons.injEq, Prod.mk.injEq,
      Parameter.text.injEq] at same
    exact same.1.2
  -- No level is a member of an enumeration.
  have formed := listed fun inner member => by simp at member
  exact ⟨_, gives, (Except.ok.inj formed).symm⟩

/-- A truth value equals the number that was sent before it, and is lost without a notice. -/
theorem truth_value_lost :
    ∃ compiled,
      (Compiler.contentful Settings.standard .null).compileQuery
          { Query.everything with
            filter := [.node .null .null .null .null
              (.list [.leaf (.text "level") (.text "==") (.int 1),
                .leaf (.text "level") (.text "==") (.bool true)]) .null] } =
          .ok (.request compiled) ∧
        compiled.notices = [] ∧ compiled.query.get? "fields.level[in]" = some (.text "1") ∧
          Parameter.item (.bool true) = .ok "true" ∧ "true" ∉ itemsOf "1" := by
  refine ⟨_, rfl, rfl, rfl, rfl, ?_⟩
  have alone : itemsOf "1" = ["1"] := itemsOf_intercalate (List.cons_ne_nil "1" []) (by decide)
  rw [alone]
  decide

end Alternatives

end Contentful

end ContentQuery
