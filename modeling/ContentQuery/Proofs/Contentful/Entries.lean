import ContentQuery.Proofs.Contentful.Meaning

/-! The entries of filter maps: what a comparison is sent as, and how entries are merged. -/

namespace ContentQuery

namespace Parameter

/-- Whether parameters that equal this one are sent as the same text. -/
def IsExact : Parameter → Prop
  | .text _ => True
  | .int _ => True
  | .float _ => False

/-- Equal parameters are sent as the same text, unless they are fractions. -/
theorem sent_of_same {left right : Parameter} (exact_ : left.IsExact) (exact' : right.IsExact)
    (equal : left.same right = true) : left.sent = right.sent := by
  -- Numbers of different kinds may be equal, and only fractions have several texts.
  cases left <;> cases right <;> simp_all [same, IsExact, sent]

/-- An item of a list parameter can be sent by itself, and its text holds no comma. -/
theorem ofValue_of_item {value : Value} {part : String} (made : item value = .ok part) :
    value.isNull = false ∧ ',' ∉ part.toList ∧
      ∃ parameter, ofValue value = .ok parameter ∧ parameter.sent = part := by
  unfold item at made
  dsimp only at made
  -- A container is refused first, and then a text with a comma.
  split at made
  · exact nomatch made
  · rename_i scalar
    obtain ⟨parameter, given, made⟩ := ok_of_bind made
    split at made
    · exact nomatch made
    · split at made
      · exact nomatch made
      · rename_i whole
        cases made
        refine ⟨?_, by simpa using whole, parameter, ?_, rfl⟩
        · cases value <;> first | rfl | exact nomatch given
        · unfold ofValue
          cases value <;> first | exact given | exact absurd rfl scalar

/-- A list parameter joins the texts of its items, of which there is one, and none has a comma. -/
theorem parts_of_ofItems {items : List Value} {parameter : Parameter}
    (made : ofItems items = .ok parameter) :
    ∃ parts, items.mapM item = .ok parts ∧ parameter = .text (",".intercalate parts) ∧
      parts ≠ [] ∧ ∀ part ∈ parts, ',' ∉ part.toList := by
  -- An item with a comma in it is not written.
  unfold ofItems at made
  split at made
  · exact nomatch made
  · rename_i some_
    obtain ⟨parts, given, same⟩ := ok_of_bind made
    cases same
    refine ⟨parts, given, rfl, ?_, fun part member => ?_⟩
    · -- There are as many texts as items.
      rintro rfl
      exact some_ (List.isEmpty_iff.mpr (List.length_eq_zero_iff.mp (length_of_mapM given).symm))
    · obtain ⟨value, -, sendable⟩ := (mem_of_mapM given).2 part member
      exact (ofValue_of_item sendable).2.1

/-- A list parameter is exact. -/
theorem exact_ofItems {items : List Value} {parameter : Parameter}
    (made : ofItems items = .ok parameter) : parameter.IsExact := by
  obtain ⟨parts, -, rfl, -⟩ := parts_of_ofItems made
  trivial

/-- The parameter of a plain literal is exact. -/
theorem exact_ofValue {value : Value} {parameter : Parameter}
    (plain : Contentful.isPlain value = true) (made : ofValue value = .ok parameter) :
    parameter.IsExact := by
  -- Only texts, integers and lists are both plain and sent.
  cases value with
  | text words | int number =>
    cases made
    trivial
  | list items => exact exact_ofItems made
  | null => exact nomatch made
  | bool _ | float _ | bytes _ | uuid _ | moment _ | date _ | time _ | tuple _ | set _ _ | map _
  | operator _ | member _ | foreign | node _ _ _ _ _ _ | sortKey _ | projection _ =>
    exact nomatch plain

end Parameter

namespace Contentful

open Compile (Ensures)

/-- The key of a field opens with the name of a section. -/
theorem fieldKey_opens (path : String) :
    "sys.".toList <+: (fieldKey path).toList ∨ "fields.".toList <+: (fieldKey path).toList := by
  unfold fieldKey
  -- Metadata is listed, and other fields keep their section or get one.
  split
  · rename_i key found
    have listed : key ∈ systemKeys.map Prod.snd := by
      obtain ⟨before, after, same, -⟩ := List.lookup_eq_some_iff.mp found
      rw [same]
      simp
    left
    simp only [systemKeys, List.map_cons, List.map_nil, List.mem_cons, List.not_mem_nil, or_false]
      at listed
    rcases listed with rfl | rfl | rfl | rfl <;> simp
  · split
    · rename_i opens
      simpa [hasSection] using opens
    · right
      rw [String.toList_append]
      exact List.prefix_append _ _

/-- No condition on a field is taken for the content type. -/
theorem fieldKey_ne (path suffix : String) : fieldKey path ++ suffix ≠ "content_type" := by
  intro same
  -- The key would be a beginning of the other one, and so would its section.
  have inside : (fieldKey path).toList <+: "content_type".toList :=
    ⟨suffix.toList, by rw [← String.toList_append, same]⟩
  rcases fieldKey_opens path with opens | opens
  · exact absurd (opens.trans inside) (by simp)
  · exact absurd (opens.trans inside) (by simp)

/-- The entry that a comparison of a field path is converted to, if its literal can be sent. -/
def entryOf (path : String) (operator : Operator) (suffix : String) (value : Value) :
    Except FormatFault (String × Parameter) :=
  match operator, value with
  | .defined, _ => .ok (fieldKey path ++ "[exists]", .text "true")
  | .undefined, _ => .ok (fieldKey path ++ "[exists]", .text "false")
  | .equal, .null => .ok (fieldKey path ++ "[exists]", .text "false")
  | .notEqual, .null => .ok (fieldKey path ++ "[exists]", .text "true")
  | _, value => (Parameter.ofValue value).map (fieldKey path ++ suffix, ·)

/-- An entry was made from an existence check, or from a literal that can be sent. -/
theorem entryOf_cases {path : String} {operator : Operator} {suffix : String} {value : Value}
    {entry : String × Parameter} (made : entryOf path operator suffix value = .ok entry) :
    (∃ word, entry = (fieldKey path ++ "[exists]", .text word)) ∨
      ∃ parameter, Parameter.ofValue value = .ok parameter ∧
        entry = (fieldKey path ++ suffix, parameter) := by
  unfold entryOf at made
  -- The first four cases are the existence checks, in the order of the definition.
  split at made
  · exact Or.inl ⟨"true", (Except.ok.inj made).symm⟩
  · exact Or.inl ⟨"false", (Except.ok.inj made).symm⟩
  · exact Or.inl ⟨"false", (Except.ok.inj made).symm⟩
  · exact Or.inl ⟨"true", (Except.ok.inj made).symm⟩
  · obtain ⟨parameter, given, same⟩ := exists_of_map made
    exact Or.inr ⟨parameter, given, same.symm⟩

/-- An equality with anything but null has the literal as its entry. -/
theorem entryOf_equal {path suffix : String} {value : Value} {parameter : Parameter}
    (there : value.isNull = false) (given : Parameter.ofValue value = .ok parameter) :
    entryOf path .equal suffix value = .ok (fieldKey path ++ suffix, parameter) := by
  cases value <;> simp_all [entryOf, Except.map, Value.isNull]

/-- The entry of a comparison does not name the content type. -/
theorem entryOf_ne {path : String} {operator : Operator} {suffix : String} {value : Value}
    {entry : String × Parameter} (made : entryOf path operator suffix value = .ok entry) :
    entry.1 ≠ "content_type" := by
  rcases entryOf_cases made with ⟨_, rfl⟩ | ⟨_, _, rfl⟩
  · exact fieldKey_ne path _
  · exact fieldKey_ne path _

/-- The entry of a comparison with a plain literal is exact. -/
theorem exact_entryOf {path : String} {operator : Operator} {suffix : String} {value : Value}
    {entry : String × Parameter} (plain : isPlain value = true)
    (made : entryOf path operator suffix value = .ok entry) : entry.2.IsExact := by
  rcases entryOf_cases made with ⟨_, rfl⟩ | ⟨_, given, rfl⟩
  · trivial
  · exact Parameter.exact_ofValue plain given

/-- A comparison of a field path is converted to its entry, or dropped with a notice. -/
theorem convertComparison_of_path {path : String} (valid : pathGrammar.isPath path = true)
    (operator : Operator) (suffix : String) (value : Value) :
    convertComparison (.text path) operator suffix value =
      match entryOf path operator suffix value with
      | .ok entry => pure ⟨[entry]⟩
      | .error fault => do
        dropInvalidValue (.text path) operator fault
        return .empty := by
  have named : pathOf? (.text path) operator.symbol = pure (some path) := by
    simp [pathOf?, valid]
  unfold convertComparison entryOf
  rw [named, pure_bind]
  dsimp only
  -- Existence checks have their entry at hand, and other comparisons depend on their literal.
  split
  · rfl
  · rfl
  · rfl
  · rfl
  · cases given : Parameter.ofValue value with
    | error fault => simp [parameterOf?, given, Except.map]
    | ok parameter => simp [parameterOf?, given, Except.map, single]

/-- Among the notices is one that is not about alternatives across fields. -/
def Lost (notices : List Notice) : Prop :=
  ∃ notice ∈ notices, notice.reason ≠ .orAcrossFields

/-- Where something is lost, there is a notice. -/
theorem Lost.ne_nil {notices : List Notice} (lost : Lost notices) : notices ≠ [] := by
  obtain ⟨notice, member, -⟩ := lost
  exact List.ne_nil_of_mem member

/-- A notice for another reason is about a loss, whatever follows it. -/
theorem ensures_noted {reason : Reason} {message : String} {field operator : Value}
    (other : reason ≠ .orAcrossFields) :
    (Compile.degrade reason message field operator).Ensures fun _ notices => Lost notices :=
  .degrade ⟨_, List.mem_singleton_self _, other⟩

/-- What is dropped with such a notice is lost, and nothing is left of it. -/
theorem ensures_dropped {reason : Reason} {message : String} {field operator : Value}
    {post : FilterMap → List Notice → Prop} (other : reason ≠ .orAcrossFields)
    (lost : ∀ notices, Lost notices → post .empty notices) :
    Ensures (do Compile.degrade reason message field operator; return OrderedMap.empty) post := by
  refine .bind (ensures_noted other) fun _ notices noted => .pure (lost _ ?_)
  rwa [List.append_nil]

/-- The notice about alternatives across fields is the only one that names this reason. -/
theorem ensures_noteAcrossFields (branches : List Condition) :
    (noteAcrossFields branches).Ensures fun _ notices =>
      ∃ notice, notices = [notice] ∧ notice.reason = .orAcrossFields := by
  -- The fields are named in the notice, and finding them may only refuse.
  have read : (Compile.ofExcept (fieldsOf branches)).Ensures fun _ notices => notices = [] :=
    .ofExcept fun _ _ => rfl
  refine .bind read fun fields notices none_ => ?_
  subst none_
  exact .degrade ⟨_, rfl, rfl⟩

/-- What is no field path is lost with a notice. -/
theorem ensures_path (field : Value) (role : String) :
    (pathOf? field role).Ensures fun path notices =>
      (path = none ∧ Lost notices) ∨
        ∃ name, path = some name ∧ field = .text name ∧ pathGrammar.isPath name = true ∧
          notices = [] := by
  -- A text is a path or is told of; a missing field is told of too.
  have noted : Ensures (do noteField field role; return (none : Option String)) fun path notices =>
      path = none ∧ Lost notices :=
    .bind (ensures_noted (by decide)) fun _ notices lost => .pure ⟨rfl, by simpa using lost⟩
  unfold pathOf?
  split
  · split
    · rename_i valid
      exact .pure (Or.inr ⟨_, rfl, rfl, valid, rfl⟩)
    · exact noted.mono fun _ _ => Or.inl
  · exact noted.mono fun _ _ => Or.inl
  · exact .refuse

/-- A leaf that is dropped for its literal is lost with a notice. -/
theorem ensures_invalidValue (field : Value) (operator : Operator) (fault : FormatFault) :
    (dropInvalidValue field operator fault).Ensures fun _ notices => Lost notices :=
  .dropInvalidValue fun _ _ => ⟨_, List.mem_singleton_self _, nofun⟩

/-- A literal that cannot be sent is lost with a notice. -/
theorem ensures_parameter (field : Value) (operator : Operator) (value : Value) :
    (parameterOf? field operator value).Ensures fun parameter notices =>
      (parameter = none ∧ Lost notices) ∨
        ∃ given, parameter = some given ∧ Parameter.ofValue value = .ok given ∧ notices = [] := by
  -- The value is written, or is told of.
  unfold parameterOf?
  split
  · rename_i parameter given
    exact .pure (Or.inr ⟨parameter, rfl, given, rfl⟩)
  · refine .bind (ensures_invalidValue field operator _) fun _ notices lost =>
      .pure (Or.inl ⟨rfl, ?_⟩)
    rwa [List.append_nil]

/-- A comparison gives its entry, or nothing and a notice. -/
theorem ensures_comparison {field : Value} {operator : Operator} {suffix : String} {value : Value}
    {post : FilterMap → List Notice → Prop}
    (lost : ∀ notices, Lost notices → post .empty notices)
    (kept : ∀ path entry, field = .text path → pathGrammar.isPath path = true →
      entryOf path operator suffix value = .ok entry → post ⟨[entry]⟩ []) :
    (convertComparison field operator suffix value).Ensures post := by
  -- What is no path is lost before the literal is looked at.
  by_cases valid : ∃ path, field = .text path ∧ pathGrammar.isPath path = true
  · obtain ⟨path, rfl, valid⟩ := valid
    rw [convertComparison_of_path valid]
    split
    · rename_i entry made
      exact .pure (kept path entry rfl valid made)
    · exact .bind (ensures_invalidValue _ operator _) fun _ notices noted =>
        .pure (lost _ (by rwa [List.append_nil]))
  · refine .bind (ensures_path field operator.symbol) fun path notices named => ?_
    rcases named with ⟨rfl, noted⟩ | ⟨name, -, same, path, -⟩
    · exact .pure (lost _ (by rwa [List.append_nil]))
    · exact absurd ⟨name, same, path⟩ valid

/-- A reference through a field gives one entry, or it is lost with a notice. -/
theorem ensures_fieldReference (field : String) (value : Value) :
    (convertReference (.text field) value).Ensures fun map notices => Lost notices ∨
      ∃ parameter, Parameter.ofValue value = .ok parameter ∧
        map = single ("fields." ++ field ++ ".sys.id" ++ if value.items?.isSome then "[in]" else "")
          parameter := by
  -- The value and the field may each be told of, in this order.
  refine .bind (ensures_parameter (.text field) .references value) fun found notices sent => ?_
  rcases sent with ⟨rfl, lost⟩ | ⟨parameter, rfl, given, rfl⟩
  · exact .pure (Or.inl (by rwa [List.append_nil]))
  · dsimp only
    rw [show (Value.text field).isNull = false from rfl, if_neg Bool.false_ne_true]
    refine .bind (ensures_path (.text field) _) fun path notices' named => ?_
    rcases named with ⟨rfl, lost⟩ | ⟨name, rfl, same, -, rfl⟩
    · exact .pure (Or.inl (by simpa using lost))
    · obtain rfl := Value.text.inj same
      exact .pure (Or.inr ⟨parameter, given, rfl⟩)

section Alone

variable (reading : Reading) {path : String} (valid : pathGrammar.isPath path = true)
include valid

/-- Where an equality has an entry, it asks for its entry. -/
theorem aloneHolds_equal {value : Value} {entry : String × Parameter}
    (made : entryOf path .equal "" value = .ok entry) :
    AloneHolds reading (.text path) (.known .equal) value ↔
      reading.Holds entry.1 entry.2.sent := by
  -- The leaf is converted to the entry, in an empty context as in any other.
  have converted : convertLeaf (.text path) (.known .equal) value .empty =
      .ok (⟨[entry]⟩, .empty) := by
    show convertComparison (.text path) .equal "" value .empty = _
    rw [convertComparison_of_path valid, made]
    rfl
  simp [AloneHolds, converted, MapHolds, entryOf_ne made]

/-- Where an inequality has an entry, it denies the equality with the same literal. -/
theorem holds_notEqual {value : Value} {entry : String × Parameter}
    (made : entryOf path .notEqual "[ne]" value = .ok entry) :
    reading.Holds entry.1 entry.2.sent ↔
      ¬ AloneHolds reading (.text path) (.known .equal) value := by
  -- Inequality with null is an existence check, and any other has the literal as its entry.
  by_cases there : value.isNull = false
  · have mapped : (Parameter.ofValue value).map (fieldKey path ++ "[ne]", ·) = .ok entry := by
      cases value <;> first | exact made | exact nomatch there
    obtain ⟨parameter, given, rfl⟩ := exists_of_map mapped
    rw [aloneHolds_equal reading valid (entryOf_equal there given), String.append_empty]
    exact reading.holds_ne _ _
  · obtain rfl : value = .null := by
      cases value <;> first | rfl | exact absurd rfl there
    cases made
    rw [aloneHolds_equal reading valid rfl]
    exact reading.holds_exists _

/-- A list parameter asks for an equality with one of its items. -/
theorem holds_ofItems {items : List Value} {parameter : Parameter}
    (made : Parameter.ofItems items = .ok parameter) :
    reading.Holds (fieldKey path ++ "[in]") parameter.sent ↔
      ∃ item ∈ items, AloneHolds reading (.text path) (.known .equal) item := by
  obtain ⟨parts, given, rfl, filled, whole⟩ := Parameter.parts_of_ofItems made
  obtain ⟨each, back⟩ := mem_of_mapM given
  -- An item that can be sent has an equality of its own, with the same text.
  have one {item : Value} {part : String} (sendable : Parameter.item item = .ok part) :
      AloneHolds reading (.text path) (.known .equal) item ↔
        reading.Holds (fieldKey path) part := by
    obtain ⟨there, -, parameter, given, rfl⟩ := Parameter.ofValue_of_item sendable
    rw [aloneHolds_equal reading valid (entryOf_equal there given), String.append_empty]
  rw [reading.holds_in]
  show (∃ part ∈ itemsOf (",".intercalate parts), _) ↔ _
  rw [itemsOf_intercalate filled whole]
  constructor
  · rintro ⟨part, member, true_⟩
    obtain ⟨item, inside, sendable⟩ := back part member
    exact ⟨item, inside, (one sendable).mpr true_⟩
  · rintro ⟨item, member, true_⟩
    obtain ⟨part, inside, sendable⟩ := each item member
    exact ⟨part, inside, (one sendable).mp true_⟩

end Alone

end Contentful

end ContentQuery
